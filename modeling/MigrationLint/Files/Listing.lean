import MigrationLint.Files.Tree
import MigrationLint.Scan.Error

/-!
# Listings

A listing holds everything below a folder: each entry's names from the folder down, and its kind. The
migration files are the regular files whose name ends in `.sql`, in the order of their paths.
-/

namespace MigrationLint

inductive Kind where
  | file
  | link
  | folder
  deriving DecidableEq, Repr

def Entry.kind : Entry → Kind
  | .file _ => .file
  | .link _ => .link
  | .folder => .folder

abbrev Listing := List (List String × Kind)

def isSqlName (name : String) : Bool := ".sql".toList.isSuffixOf name.toList

def isMigration (item : List String × Kind) : Bool :=
  item.2 == .file && item.1.getLast?.any isSqlName

/-- The paths of the migration files in a listing of the directory. -/
def Listing.migrations (dir : String) (l : Listing) : List String :=
  ((l.filter isMigration).map fun item => joinPaths dir item.1).mergeSort pathLe

namespace FileTree

/-- The names that lead from a folder to a place below it. -/
def below? (p q : Place) : Option (List String) :=
  if p.isPrefixOf q && p.length < q.length then some (q.drop p.length) else none

def listingAt (t : FileTree) (p : Place) : Listing :=
  t.entries.filterMap fun e => (below? p e.1).map fun names => (names, e.2.kind)

/-- A folder whose path is too long to be opened. -/
def isTooLong (dir : String) (item : List String × Kind) : Bool :=
  item.2 == .folder && pathLimit ≤ (joinPaths dir item.1).utf8ByteSize

/-- Everything below a directory. Links below it are listed and not followed. -/
def listing (t : FileTree) (dir : String) : Except ScanError Listing :=
  match t.folder? dir with
  | none => .error (.directoryNotFound dir)
  | some p =>
    match (t.listingAt p).find? (isTooLong dir) with
    | some item => .error (.walk (joinPaths dir item.1) .nameTooLong)
    | none => .ok (t.listingAt p)

end FileTree

end MigrationLint
