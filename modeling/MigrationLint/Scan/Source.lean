import MigrationLint.Files.Path
import MigrationLint.Log.Event
import MigrationLint.Report.Basic
import MigrationLint.Sql.Check

/-!
# Scanning sources

A source is a file's path and text. Each source is checked on its own; the report takes them in the
order of their paths.
-/

namespace MigrationLint

structure Source where
  path : String
  text : String
  deriving DecidableEq, Repr

/-- The number of statements of a source, and its violations. -/
def Source.scan (p : Policy) (s : Source) : Nat × List Violation :=
  let checked := Sql.check p s.text
  (checked.length, checked.flatMap fun c => c.problems.map fun x => ⟨s.path, c.statement, x.issue⟩)

/-- The report with one more source. No run has so many statements that a count would start again. -/
def Report.addSource (p : Policy) (r : Report) (s : Source) : Report :=
  r.extended (s.scan p).1 (s.scan p).2

def inPathOrder (sources : List Source) : List Source := sources.mergeSort fun a b => pathLe a.path b.path

def scanSources (p : Policy) (timestamp : String) (sources : List Source) : Report :=
  (inPathOrder sources).foldl (Report.addSource p) (.new timestamp)

/-! ## Events -/

def Source.event (p : Policy) (s : Source) : Event := .fileChecked s.path (s.scan p).1 (s.scan p).2.length

def Report.event (r : Report) : Event := .scanComplete r.filesScanned r.statementsChecked r.issueCount

end MigrationLint
