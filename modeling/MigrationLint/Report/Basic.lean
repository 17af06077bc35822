import MigrationLint.Problem

/-!
# Reports

A report counts the files and statements of a run and lists the violations, file by file and
statement by statement.
-/

namespace MigrationLint

structure Violation where
  file : String
  statement : String
  issue : Issue
  deriving DecidableEq, Repr

def Violation.display (v : Violation) : String := v.file ++ ": " ++ v.issue.message

structure Version where
  major : Nat
  minor : Nat
  deriving DecidableEq, Repr

namespace Version

def current : Version := ⟨1, 0⟩

def text (v : Version) : String := toString v.major ++ "." ++ toString v.minor

end Version

structure Report where
  version : Version
  timestamp : String
  filesScanned : Nat
  statementsChecked : Nat
  violations : List Violation
  deriving DecidableEq, Repr

/-- Counts have 64 bits. -/
def countBound : Nat := 0x10000000000000000

/-- Counts one more of a code. The counts stand in the order of their codes. -/
def countOne (code : Code) : List (Code × Nat) → List (Code × Nat)
  | [] => [(code, 1)]
  | (c, n) :: counts =>
    if code = c then (c, n + 1) :: counts
    else if code.rank < c.rank then (code, 1) :: (c, n) :: counts
    else (c, n) :: countOne code counts

namespace Report

def new (timestamp : String) : Report := ⟨.current, timestamp, 0, 0, []⟩

/-- The report with one more file, in numbers of any size. -/
def extended (r : Report) (statements : Nat) (violations : List Violation) : Report :=
  { r with
    filesScanned := r.filesScanned + 1
    statementsChecked := r.statementsChecked + statements
    violations := r.violations ++ violations }

/-- The report whose counts keep the bits that they have. -/
def wrapped (r : Report) : Report :=
  { r with
    filesScanned := r.filesScanned % countBound
    statementsChecked := r.statementsChecked % countBound }

/-- The report with one more file. A count that gets too large for its bits starts again from zero. -/
def addFile (r : Report) (statements : Nat) (violations : List Violation) : Report :=
  (r.extended statements violations).wrapped

def issueCount (r : Report) : Nat := r.violations.length

def clean (r : Report) : Bool := r.violations.isEmpty

def countsByCode (r : Report) : List (Code × Nat) :=
  r.violations.foldl (fun counts v => countOne v.issue.code counts) []

end Report

end MigrationLint
