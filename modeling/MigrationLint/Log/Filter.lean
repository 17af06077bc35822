import MigrationLint.Log.Line
import MigrationLint.Text.Pieces
import MigrationLint.Text.Word

/-!
# Filters of the log

A filter is a comma list. An item gives a level to the targets that start with a text, or to all; a text
alone stands for the most detailed level. The longest text that a target starts with decides, and among
equal ones the last. Filters by spans and fields are not read, for a run has no spans.
-/

namespace MigrationLint

open Text

namespace LogFilter

def levels : List String := ["off", "error", "warn", "info", "debug", "trace"]

/-- The rank of a level that is given by its name, in letters of any case, or by its digit. -/
def level? (s : List Char) : Option Nat :=
  (levels.idxOf? (String.ofList (s.map Char.toLower))).or
    (match s with
    | [c] => if '0' ≤ c ∧ c ≤ '5' then some (c.toNat - '0'.toNat) else none
    | _ => none)

def debugLevel : Nat := 4

structure Item where
  target : List Char
  level : Nat
  deriving DecidableEq, Repr

def item? (s : List Char) : Option Item :=
  match level? s with
  | some level => some ⟨[], level⟩
  | none =>
    let target := s.takeWhile (· != '=')
    if target.isEmpty ∨ target.any (fun c => !isWordChar c && c != ':' && c != '-') then none
    else match s.dropWhile (· != '=') with
      | '=' :: c :: level => (level? (c :: level)).map (⟨target, ·⟩)
      | _ => some ⟨target, levels.length - 1⟩

/-- The item that decides on a target. -/
def deciding? (items : List Item) (target : List Char) : Option Item :=
  (items.filter (·.target.isPrefixOf target)).foldl
    (fun best item => if best.any (item.target.length < ·.target.length) then best else some item) none

/-- The events that a filter lets through. -/
def read? (s : String) : Option (Event → Bool) :=
  (((pieces (· == ',') s.toList).filter (!·.isEmpty)).mapM item?).map fun items e =>
    (deciding? items e.target.toList).any (debugLevel ≤ ·.level)

end LogFilter

end MigrationLint
