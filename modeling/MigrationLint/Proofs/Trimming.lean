import Mathlib.Data.List.Basic
import Mathlib.Data.List.TakeWhile
import MigrationLint.Proofs.Characters
import MigrationLint.Text.Lower

/-!
# Trimmed texts

Trimming takes the blanks off both ends of a text and nothing else (`Trims.eq_trim`). What is left is empty for a
text of blanks only, and so is its lowercase.
-/

namespace MigrationLint.Text

def IsBlankText (s : List Char) : Prop := ∀ c ∈ s, isBlank c = true

instance (s : List Char) : Decidable (IsBlankText s) := List.decidableBAll (isBlank · = true) s

/-- The second text is the first without the blanks at its ends. -/
structure Trims (s t : List Char) : Prop where
  ends : ∃ front back, IsBlankText front ∧ IsBlankText back ∧ s = front ++ t ++ back
  first : ∀ c ∈ t.head?, isBlank c = false
  last : ∀ c ∈ t.getLast?, isBlank c = false

theorem dropWhile_of_head {s : List Char} (h : ∀ c ∈ s.head?, isBlank c = false) : s.dropWhile isBlank = s := by
  cases s with
  | nil => rfl
  | cons c s => exact List.dropWhile_cons_of_neg (by simp [h c rfl])

theorem trim_eq_nil_iff {s : List Char} : trim s = [] ↔ IsBlankText s := by
  rw [trim, trimEnd, List.reverse_eq_nil_iff, List.dropWhile_eq_nil_iff]
  simp only [List.mem_reverse, trimStart]
  constructor
  · intro h
    by_contra hs
    have hne : s.dropWhile isBlank ≠ [] := fun e => hs (List.dropWhile_eq_nil_iff.mp e)
    obtain ⟨c, t, ht⟩ := List.exists_cons_of_ne_nil hne
    have hc := head_dropWhile (p := isBlank) (s := s) c (by rw [ht]; rfl)
    rw [h c (by simp [ht])] at hc
    cases hc
  · exact fun h c hc => h c (List.dropWhile_suffix isBlank |>.subset hc)

theorem trims_trim (s : List Char) : Trims s (trim s) := by
  have hfront : s = s.takeWhile isBlank ++ trimStart s := List.takeWhile_append_dropWhile.symm
  have hback : trimStart s = trim s ++ ((trimStart s).reverse.takeWhile isBlank).reverse := by
    rw [trim, trimEnd, ← List.reverse_append, List.takeWhile_append_dropWhile, List.reverse_reverse]
  refine ⟨⟨s.takeWhile isBlank, ((trimStart s).reverse.takeWhile isBlank).reverse,
    fun c => List.mem_takeWhile_imp, fun c hc => ?_, ?_⟩, fun c hc => ?_, fun c hc => ?_⟩
  · exact List.mem_takeWhile_imp (List.mem_reverse.mp hc)
  · rw [List.append_assoc, ← hback, ← hfront]
  · refine head_dropWhile (p := isBlank) (s := s) c ?_
    change c ∈ (trimStart s).head?
    obtain ⟨t, ht⟩ := List.head?_eq_some_iff.mp hc
    rw [hback, ht]
    rfl
  · rw [trim, trimEnd, List.getLast?_reverse] at hc
    exact head_dropWhile c hc

theorem Trims.eq_trim {s t : List Char} (h : Trims s t) : t = trim s := by
  obtain ⟨⟨front, back, hfront, hback, rfl⟩, hfirst, hlast⟩ := h
  by_cases ht : t = []
  · subst ht
    refine (trim_eq_nil_iff.mpr fun c hc => ?_).symm
    rw [List.append_nil, List.mem_append] at hc
    exact hc.elim (hfront c) (hback c)
  · have hstart : trimStart (front ++ t ++ back) = t ++ back := by
      rw [trimStart, List.append_assoc, List.dropWhile_append_of_pos hfront, dropWhile_of_head]
      rwa [List.head?_append_of_ne_nil _ ht]
    have hend : (back.reverse ++ t.reverse).dropWhile isBlank = t.reverse := by
      rw [List.dropWhile_append_of_pos fun c hc => hback c (List.mem_reverse.mp hc), dropWhile_of_head]
      rwa [List.head?_reverse]
    rw [trim, hstart, trimEnd, List.reverse_append, hend, List.reverse_reverse]

/-! ## Lowercase -/

theorem lowerChar_ne_nil (c : Char) : lowerChar c ≠ [] := by
  unfold lowerChar
  repeat' split
  all_goals simp

theorem lower_eq_nil_iff {s : List Char} : lower s = [] ↔ s = [] := by
  constructor
  · intro h
    cases s with
    | nil => rfl
    | cons c s =>
      rw [lower, lowerAfter, List.append_eq_nil_iff] at h
      exfalso
      revert h
      split
      · simp
      · exact fun h => lowerChar_ne_nil c h.1
  · rintro rfl
    rfl

end MigrationLint.Text
