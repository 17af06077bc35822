import MigrationLint.Files.Error
import MigrationLint.Files.Path

/-!
# File trees

A tree holds files, links and folders by their places: the names from the root down, none of them a
link. Looking up a path follows links, and so does writing a file.
-/

namespace MigrationLint

inductive Entry where
  | file (bytes : ByteArray)
  | link (target : String)
  | folder

/-- Where an entry stands, from the root. -/
abbrev Place := List String

structure FileTree where
  entries : List (Place × Entry)
  cwd : Place

inductive Found where
  | file (bytes : ByteArray)
  | folder (place : Place)

namespace FileTree

def new : FileTree := ⟨[(["work"], .folder)], ["work"]⟩

def entry? (t : FileTree) (p : Place) : Option Entry := t.entries.lookup p

def set (t : FileTree) (p : Place) (e : Entry) : FileTree :=
  { t with entries := t.entries.filter (·.1 ≠ p) ++ [(p, e)] }

/-! ## Looking up -/

/-- The longest name that a folder can hold, in bytes. -/
def nameLimit : Nat := 255

/-- The length from which on a path is refused, in bytes. -/
def pathLimit : Nat := 4096

/-- The number of links that a look-up follows. -/
def linkLimit : Nat := 40

def start (t : FileTree) (path : String) : Place := if isAbsolute path then [] else t.cwd

/-- Where the target of a link in the folder `p` starts from. -/
def linkStart (p : Place) (target : String) : Place := if isAbsolute target then [] else p

/-- Goes through steps from a folder; a link is left to `follow`. -/
def walk (t : FileTree) (follow : Place → List String → Except FileError Found) :
    Place → List String → Except FileError Found
  | p, [] => .ok (.folder p)
  | p, name :: rest =>
    if name = "" ∨ name = "." then walk t follow p rest
    else if name = ".." then walk t follow p.dropLast rest
    else if nameLimit < name.utf8ByteSize then .error .nameTooLong
    else match t.entry? (p ++ [name]) with
      | none => .error .notFound
      | some .folder => walk t follow (p ++ [name]) rest
      | some (.link target) => follow (linkStart p target) (steps target ++ rest)
      | some (.file bytes) => if rest.isEmpty then .ok (.file bytes) else .error .notDirectory

/-- Goes through steps from a folder and follows at most `n` links. -/
def follow (t : FileTree) : Nat → Place → List String → Except FileError Found
  | 0 => t.walk fun _ _ => .error .tooManyLinks
  | n + 1 => t.walk (t.follow n)

def find (t : FileTree) (path : String) : Except FileError Found :=
  if path = "" then .error .notFound
  else if pathLimit ≤ path.utf8ByteSize then .error .nameTooLong
  else t.follow linkLimit (t.start path) (steps path)

def folder? (t : FileTree) (path : String) : Option Place :=
  match t.find path with
  | .ok (.folder p) => some p
  | _ => none

def read (t : FileTree) (path : String) : Except FileError ByteArray :=
  match t.find path with
  | .ok (.file bytes) => .ok bytes
  | .ok (.folder _) => .error .isDirectory
  | .error e => .error e

/-! ## Writing -/

/-- Goes through steps from a folder to the place of a file that may be there or not; a link is left to
`follow`. There is no such place behind a slash at the end. -/
def walkTo (t : FileTree) (follow : Place → List String → Except FileError Place) :
    Place → List String → Except FileError Place
  | _, [] => .error .isDirectory
  | p, [last] =>
    if last = "" ∨ last = "." ∨ last = ".." then .error .isDirectory
    else if nameLimit < last.utf8ByteSize then .error .nameTooLong
    else match t.entry? (p ++ [last]) with
      | some .folder => .error .isDirectory
      | some (.link target) => follow (linkStart p target) (steps target)
      | _ => .ok (p ++ [last])
  | p, name :: next :: rest =>
    if next = "" ∧ rest = [] then .error .isDirectory
    else if name = "" ∨ name = "." then walkTo t follow p (next :: rest)
    else if name = ".." then walkTo t follow p.dropLast (next :: rest)
    else if nameLimit < name.utf8ByteSize then .error .nameTooLong
    else match t.entry? (p ++ [name]) with
      | none => .error .notFound
      | some .folder => walkTo t follow (p ++ [name]) (next :: rest)
      | some (.link target) => follow (linkStart p target) (steps target ++ next :: rest)
      | some (.file _) => .error .notDirectory

/-- Goes to the place of a file and follows at most `n` links. -/
def followTo (t : FileTree) : Nat → Place → List String → Except FileError Place
  | 0 => t.walkTo fun _ _ => .error .tooManyLinks
  | n + 1 => t.walkTo (t.followTo n)

/-- The tree after a file is written; its folder must be there. -/
def write (t : FileTree) (path : String) (bytes : ByteArray) : Except FileError FileTree :=
  if path = "" then .error .notFound
  else if pathLimit ≤ path.utf8ByteSize then .error .nameTooLong
  else (t.followTo linkLimit (t.start path) (steps path)).map fun p => t.set p (.file bytes)

/-! ## Making entries -/

/-- Makes an entry at the end of the steps, with the folders on the way that are not there. A folder
does not replace what is there. -/
def makeAt (t : FileTree) (e : Entry) : Place → List String → FileTree
  | _, [] => t
  | p, [name] =>
    match e, t.entry? (p ++ [name]) with
    | .folder, some _ => t
    | _, _ => t.set (p ++ [name]) e
  | p, name :: rest =>
    match t.follow linkLimit p [name] with
    | .ok (.folder q) => makeAt t e q rest
    | _ => makeAt (t.set (p ++ [name]) .folder) e (p ++ [name]) rest

def make (t : FileTree) (path : String) (e : Entry) : FileTree := t.makeAt e (t.start path) (steps path)

end FileTree

end MigrationLint
