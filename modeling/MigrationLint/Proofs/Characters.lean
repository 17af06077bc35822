import Mathlib.Tactic.Common
import MigrationLint.Sql.Form
import MigrationLint.Sql.Region
import MigrationLint.Sql.SchemaRef

/-!
# Kinds of characters

How the kinds of characters that words, names, identifiers, extensions and tags are made of lie to each other.
A blank is no word character, and every other kind but the word characters stays within ASCII.
-/

namespace MigrationLint.Text

/-- A text checked character by character; what is decided is the text, not all characters. -/
theorem forall_of_all {p : Char → Prop} [DecidablePred p] {s : List Char} (h : s.all (p ·) = true) :
    ∀ c ∈ s, p c := by
  simpa using h

/-- What is behind the run of characters of a kind does not start with one. -/
theorem head_dropWhile {p : Char → Bool} {s : List Char} : ∀ c ∈ (s.dropWhile p).head?, p c = false := by
  intro c hc
  have hnot := List.head?_dropWhile_not p s
  rw [hc] at hnot
  simpa using hnot

theorem Ranges.has_eq_false {t t' : Ranges} (h : ∀ r ∈ t, ∀ r' ∈ t', r.2 < r'.1 ∨ r'.2 < r.1) {c : Char}
    (hc : t.has c = true) : t'.has c = false := by
  simp only [Ranges.has, List.any_eq_true, List.any_eq_false, Bool.and_eq_true, decide_eq_true_eq] at hc ⊢
  obtain ⟨r, hr, hc⟩ := hc
  intro r' hr' hc'
  have := h r hr r' hr'
  omega

theorem isAlphanum_iff {c : Char} :
    c.isAlphanum = true ↔ (c.isUpper = true ∨ c.isLower = true) ∨ c.isDigit = true := by
  show ((c.isUpper || c.isLower) || c.isDigit) = true ↔ _
  rw [Bool.or_eq_true, Bool.or_eq_true]

theorem toNat_of_between {c lo hi : Char} (h : (c.val ≥ lo.val && c.val ≤ hi.val) = true) :
    lo.toNat ≤ c.toNat ∧ c.toNat ≤ hi.toNat := by
  rw [Bool.and_eq_true, decide_eq_true_eq, decide_eq_true_eq] at h
  exact h

theorem bounds_of_isAlphanum {c : Char} (h : c.isAlphanum = true) : 48 ≤ c.toNat ∧ c.toNat ≤ 122 := by
  rcases isAlphanum_iff.mp h with (h | h) | h
  · have : 65 ≤ c.toNat ∧ c.toNat ≤ 90 := of_decide_eq_true h
    omega
  · have : 97 ≤ c.toNat ∧ c.toNat ≤ 122 := @toNat_of_between c 'a' 'z' h
    omega
  · have : 48 ≤ c.toNat ∧ c.toNat ≤ 57 := @toNat_of_between c '0' '9' h
    omega

theorem isWordChar_of_isBlank {c : Char} (h : isBlank c = true) : isWordChar c = false := by
  unfold isWordChar
  split
  · simp only [Bool.or_eq_false_iff, beq_eq_false_iff_ne]
    constructor
    · rw [Bool.eq_false_iff]
      intro hc
      have := bounds_of_isAlphanum hc
      simp only [isBlank, blankRanges, Ranges.has, List.any_cons, List.any_nil, Bool.or_eq_true, Bool.and_eq_true,
        decide_eq_true_eq, Bool.false_eq_true, or_false] at h
      omega
    · intro e
      subst e
      exact absurd h (by decide)
  · exact Ranges.has_eq_false (by decide +kernel) h

theorem isBlank_of_isWordChar {c : Char} (h : isWordChar c = true) : isBlank c = false :=
  Bool.eq_false_iff.mpr fun hb => by simp [isWordChar_of_isBlank hb] at h

end MigrationLint.Text

namespace MigrationLint.Sql

open Text

theorem isIdentChar_of_isLower {c : Char} (h : c.isLower = true) : isIdentChar c = true := by simp [isIdentChar, h]

theorem isNameChar_iff {c : Char} : isNameChar c = true ↔ isIdentChar c = true ∨ c = '.' := by
  simp [isNameChar, isIdentChar]

theorem isExtensionChar_iff {c : Char} : isExtensionChar c = true ↔ isIdentChar c = true ∨ c = '-' := by
  simp [isExtensionChar, isIdentChar]

theorem isNameChar_of_isLower {c : Char} (h : c.isLower = true) : isNameChar c = true :=
  isNameChar_iff.mpr (.inl (isIdentChar_of_isLower h))

theorem lt_of_isTagChar {c : Char} (h : isTagChar c = true) : c.toNat < 128 := by
  rw [isTagChar, Bool.or_eq_true, beq_iff_eq] at h
  rcases h with h | rfl
  · have := bounds_of_isAlphanum h
    omega
  · decide

theorem isTagChar_of_isIdentChar {c : Char} (h : isIdentChar c = true) : isTagChar c = true := by
  simp only [isIdentChar, Bool.or_eq_true, beq_iff_eq] at h
  rw [isTagChar, Bool.or_eq_true, isAlphanum_iff, beq_iff_eq]
  tauto

theorem lt_of_isIdentChar {c : Char} (h : isIdentChar c = true) : c.toNat < 128 :=
  lt_of_isTagChar (isTagChar_of_isIdentChar h)

theorem isIdentChar_of_mem {w : List Char} (h : isIdent w = true) {c : Char} (hc : c ∈ w) : isIdentChar c = true := by
  cases w with
  | nil => cases hc
  | cons d w =>
    rw [isIdent, Bool.and_eq_true, List.all_eq_true] at h
    rcases List.mem_cons.mp hc with rfl | hc
    · have := h.1
      simp only [isIdentChar, Bool.or_eq_true] at this ⊢
      tauto
    · exact h.2 c hc

theorem lt_of_isNameChar {c : Char} (h : isNameChar c = true) : c.toNat < 128 := by
  rcases isNameChar_iff.mp h with h | rfl
  · exact lt_of_isIdentChar h
  · decide

theorem lt_of_isExtensionChar {c : Char} (h : isExtensionChar c = true) : c.toNat < 128 := by
  rcases isExtensionChar_iff.mp h with h | rfl
  · exact lt_of_isIdentChar h
  · decide

theorem isWordChar_of_isTagChar {c : Char} (h : isTagChar c = true) : isWordChar c = true := by
  unfold isWordChar
  rwa [if_pos (lt_of_isTagChar h)]

theorem isWordChar_of_isIdentChar {c : Char} (h : isIdentChar c = true) : isWordChar c = true :=
  isWordChar_of_isTagChar (isTagChar_of_isIdentChar h)

theorem isBlank_of_isNameChar {c : Char} (h : isNameChar c = true) : isBlank c = false := by
  rcases isNameChar_iff.mp h with h | rfl
  · exact isBlank_of_isWordChar (isWordChar_of_isIdentChar h)
  · decide

theorem isNameChar_of_isBlank {c : Char} (h : isBlank c = true) : isNameChar c = false :=
  Bool.eq_false_iff.mpr fun hc => by simp [isBlank_of_isNameChar hc] at h

theorem isBlank_of_isExtensionChar {c : Char} (h : isExtensionChar c = true) : isBlank c = false := by
  rcases isExtensionChar_iff.mp h with h | rfl
  · exact isBlank_of_isWordChar (isWordChar_of_isIdentChar h)
  · decide

end MigrationLint.Sql
