import MigrationLint.Policy.Basic
import MigrationLint.Problem

/-!
# Events

An event tells of a step that a run has done, with what came of it. A run logs its events in the order of
its steps.
-/

namespace MigrationLint

inductive Event where
  | policyResolved (config : String) (policy : Policy)
  | filesDiscovered (dir : String) (count : Nat)
  | fileChecked (file : String) (statements violations : Nat)
  | scanComplete (files statements violations : Nat)
  | violationsCounted (counts : List (Code × Nat))
  | reportSaved (path : String)
  deriving DecidableEq, Repr

end MigrationLint
