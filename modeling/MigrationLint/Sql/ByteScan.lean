import MigrationLint.Text.Bytes
import MigrationLint.Text.Lower

/-!
# Stripping by bytes

A text is stripped in a loop over its bytes. The loop keeps the index of the next byte, the mode it is in, and what is
left of the text so far. Each turn cuts the text at the index and reads the first character behind the cut; the marks
and the tags are found among the bytes.
-/

namespace MigrationLint.Sql

open Text

inductive Mode where
  | plain
  | line
  | block
  | literal
  | quoted
  | body (tag : Bytes)
  deriving DecidableEq, Repr

structure Scan where
  index : Nat
  mode : Mode
  out : String
  deriving DecidableEq, Repr

def isTagByte (b : UInt8) : Bool :=
  0x30 ≤ b && b ≤ 0x39 || 0x41 ≤ b && b ≤ 0x5A || 0x61 ≤ b && b ≤ 0x7A || b == 0x5F

/-- The tag `$name$` at the front of a text, if there is one. No answer at all is a fault. -/
def dollarTag (s : Bytes) : Option (Option Bytes) :=
  if startsWith s "$" then
    let body := s.drop 1
    let n := (body.takeWhile isTagByte).length
    (sliceFrom? body n).bind fun rest =>
      if startsWith rest "$" then (sliceTo? s (n + 2)).map some else some none
  else some none

namespace Scan

def start : Scan := ⟨0, .plain, ""⟩

/-- Reads the character `c` at the front of `rest`, or the mark or the tag that starts there. -/
def read? (st : Scan) (c : Char) (rest : Bytes) : Option Scan :=
  match st.mode with
  | .line =>
    if c = '\n' then some ⟨st.index + c.utf8Size, .plain, st.out.push '\n'⟩
    else some { st with index := st.index + c.utf8Size }
  | .block =>
    if startsWith rest "*/" then some { st with index := st.index + 2, mode := .plain }
    else some { st with index := st.index + c.utf8Size }
  | .body tag =>
    if tag.isPrefixOf rest then some ⟨st.index + tag.length, .plain, st.out.push ' '⟩
    else some { st with index := st.index + c.utf8Size }
  | .literal =>
    if startsWith rest "\x27\x27" then some { st with index := st.index + 2 }
    else if c = '\x27' then some ⟨st.index + 1, .plain, st.out.push ' '⟩
    else some { st with index := st.index + c.utf8Size }
  | .quoted =>
    if startsWith rest "\x22\x22" then some { st with index := st.index + 2, out := st.out.push '\x22' }
    else if c = '\x22' then some { st with index := st.index + 1, mode := .plain }
    else some { st with index := st.index + c.utf8Size, out := st.out.push c }
  | .plain =>
    if startsWith rest "--" then some { st with index := st.index + 2, mode := .line }
    else if startsWith rest "/*" then some { st with index := st.index + 2, mode := .block }
    else if c = '\x27' then some { st with index := st.index + 1, mode := .literal }
    else if c = '\x22' then some { st with index := st.index + 1, mode := .quoted }
    else (dollarTag rest).map fun
      | some tag => ⟨st.index + tag.length, .body tag, st.out.push ' '⟩
      | none => { st with index := st.index + c.utf8Size, out := st.out.push c }

end Scan

/-- A turn of the loop cuts the text inside a character, leaves the loop, or goes on. -/
inductive Turn where
  | fault
  | leave
  | next (st : Scan)
  deriving DecidableEq, Repr

def turn (sql : Bytes) (st : Scan) : Turn :=
  match sliceFrom? sql st.index with
  | none => .fault
  | some rest =>
    match firstChar? rest with
    | none => .leave
    | some c =>
      match st.read? c rest with
      | none => .fault
      | some st => .next st

/-! ## The loop -/

theorem dollarTag_ne_nil {s tag : Bytes} (h : dollarTag s = some (some tag)) : tag ≠ [] := by
  unfold dollarTag at h
  split at h
  · rename_i hs
    obtain ⟨rest, -, h⟩ := Option.bind_eq_some_iff.mp h
    split at h
    · obtain ⟨tag, ht, he⟩ := Option.map_eq_some_iff.mp h
      cases he
      unfold sliceTo? at ht
      rw [Option.ite_none_right_eq_some] at ht
      obtain rfl := Option.some.inj ht.2
      cases s with
      | nil => exact absurd hs (by decide)
      | cons b s => simp
    · cases h
  · cases h

namespace Scan

variable {st st' : Scan} {c : Char} {rest : Bytes}

/-- Only behind a tag without bytes, which no text has, the index would stay. -/
theorem index_of_read? (h : st.read? c rest = some st') :
    st.index < st'.index ∨ st.index = st'.index ∧ st.mode = .body [] ∧ st'.mode = .plain := by
  have hc := c.utf8Size_pos
  obtain ⟨i, mode, out⟩ := st
  cases mode with
  | plain =>
    left
    simp only [read?] at h
    repeat' split at h
    case isFalse.isFalse.isFalse.isFalse =>
      obtain ⟨found, ht, rfl⟩ := Option.map_eq_some_iff.mp h
      cases found with
      | none => simpa using hc
      | some tag => simpa using List.length_pos_iff.mpr (dollarTag_ne_nil ht)
    all_goals
      obtain rfl := Option.some.inj h
      simp
  | body tag =>
    simp only [read?] at h
    split at h
    · obtain rfl := Option.some.inj h
      cases tag with
      | nil => exact .inr ⟨rfl, rfl, rfl⟩
      | cons b tag => exact .inl (by simp)
    · obtain rfl := Option.some.inj h
      exact .inl (by simpa using hc)
  | _ =>
    left
    simp only [read?] at h
    repeat' split at h
    all_goals
      obtain rfl := Option.some.inj h
      simp [hc]

/-- How far the scan is from the end of a text of `n` bytes. -/
def left (n : Nat) (st : Scan) : Nat :=
  2 * (n - st.index) + match st.mode with
    | .body _ => 1
    | _ => 0

theorem left_of_read? {n : Nat} (h : st.read? c rest = some st') (hlt : st.index < n) : st'.left n < st.left n := by
  rcases index_of_read? h with hi | ⟨hi, hmode, hmode'⟩
  · unfold left
    split <;> split <;> omega
  · unfold left
    rw [hi, hmode, hmode']
    simp

end Scan

theorem read?_of_turn {sql : Bytes} {st st' : Scan} (h : turn sql st = .next st') :
    ∃ c rest, st.read? c rest = some st' := by
  unfold turn at h
  repeat' split at h
  all_goals cases h
  exact ⟨_, _, ‹_›⟩

/-- Nothing is left of the text if a turn is a fault. -/
def scan (sql : Bytes) (st : Scan) : Option String :=
  if st.index < sql.length then
    match _ : turn sql st with
    | .fault => none
    | .leave => some st.out
    | .next st => scan sql st
  else some st.out
termination_by st.left sql.length
decreasing_by
  obtain ⟨c, rest, hread⟩ := read?_of_turn ‹turn sql _ = _›
  exact Scan.left_of_read? hread ‹_ < _›

def normalizeBytes (sql : String) : Option String :=
  (scan (bytes sql) .start).map fun out => .ofList (lower out.toList)

end MigrationLint.Sql
