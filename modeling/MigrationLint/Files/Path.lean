import MigrationLint.Text.Pieces

/-!
# Paths

A path is a text. Its steps are what a look-up goes through, its parts what paths are compared by:
part by part, the root before a leading dot, that before `..`, and that before names.
-/

namespace MigrationLint

open Text

/-! ## Steps -/

/-- The names on a path. A slash at the end is kept as an empty last step. -/
def steps (path : String) : List String :=
  let names := ((pieces (· == '/') path.toList).filter (!·.isEmpty)).map String.ofList
  if path.toList.getLast? = some '/' then names ++ [""] else names

def isAbsolute (path : String) : Bool := path.toList.head? = some '/'

def joinPath (dir name : String) : String :=
  if dir.toList.getLast? = some '/' then dir ++ name else dir ++ "/" ++ name

def joinPaths (dir : String) (names : List String) : String := names.foldl joinPath dir

/-! ## Order -/

inductive PathPart where
  | root
  | here
  | up
  | name (s : String)
  deriving DecidableEq, Repr

def PathPart.rank : PathPart → Nat
  | root => 0
  | here => 1
  | up => 2
  | name _ => 3

def PathPart.text : PathPart → String
  | name s => s
  | _ => ""

def PathPart.lt (a b : PathPart) : Bool := a.rank < b.rank || a.rank == b.rank && a.text < b.text

/-- A part that is compared: empty pieces and dots do not count. -/
def part? (s : List Char) : Option PathPart :=
  if s.isEmpty ∨ s = ['.'] then none else if s = ['.', '.'] then some .up else some (.name (.ofList s))

def pathParts (path : String) : List PathPart :=
  let ps := pieces (· == '/') path.toList
  let front := if isAbsolute path then [.root] else if ps.head? = some ['.'] then [.here] else []
  front ++ ps.filterMap part?

def partsLe : List PathPart → List PathPart → Bool
  | [], _ => true
  | _ :: _, [] => false
  | a :: as, b :: bs => a.lt b || !b.lt a && partsLe as bs

/-- Paths that have the same parts count as equal. -/
def pathLe (a b : String) : Bool := partsLe (pathParts a) (pathParts b)

end MigrationLint
