import Mathlib.Data.List.Forall2
import MigrationLint.Proofs.Characters
import MigrationLint.Proofs.Hidden

/-!
# Ordinary characters

Every character of a lowercase text is the lowercase of some character (`exists_lowers`). So a list of
ordinary characters is the normal form of a text, and that text ends in plain text (`exists_text`).
-/

namespace MigrationLint.Sql

open Text

/-- The lowercase of `c` is `d` in every context. -/
def Lowers (c d : Char) : Prop := c ≠ '\u03A3' ∧ lowerChar c = [d]

theorem exists_lowers_of_lowerChar {c d : Char} (hc : c ≠ '\u03A3') (h : d ∈ lowerChar c) : ∃ c, Lowers c d := by
  unfold lowerChar at h
  by_cases hlt : c.toNat < 128
  · rw [if_pos hlt, List.mem_singleton] at h
    subst h
    exact ⟨c, hc, if_pos hlt⟩
  by_cases hdot : c = '\u0130'
  · have hd : d = 'i' ∨ d = '\u0307' := by simpa [hlt, hdot] using h
    rcases hd with rfl | rfl
    · exact ⟨'i', by decide, rfl⟩
    · exact ⟨'\u0307', by decide, by decide +kernel⟩
  · rw [if_neg hlt, if_neg hdot, List.mem_singleton] at h
    subst h
    refine ⟨c, hc, ?_⟩
    unfold lowerChar
    rw [if_neg hlt, if_neg hdot]

theorem exists_lowers {s : List Char} {d : Char} (h : d ∈ lower s) : ∃ c, Lowers c d := by
  have along : ∀ cased, d ∈ lowerAfter cased s → ∃ c, Lowers c d := by
    clear h
    induction s with
    | nil => intro _ h; cases h
    | cons c s ih =>
      intro cased h
      rw [lowerAfter, List.mem_append] at h
      rcases h with h | h
      · split at h
        next =>
          rw [List.mem_singleton.mp h]
          split
          · exact ⟨'\u03C2', by decide, by decide +kernel⟩
          · exact ⟨'\u03C3', by decide, by decide +kernel⟩
        next hc => exact exists_lowers_of_lowerChar hc h
      · exact ih _ h
  exact along false h

/-- Characters of normal texts that have no meaning of their own in plain text, if no dash follows a dash. -/
def Ordinary (d : Char) : Prop := (isWordChar d = true ∨ d ∈ [' ', '.', '-']) ∧ ∃ c, Lowers c d

theorem ordinary_of_all {s : List Char}
    (h : (s.all fun d =>
      (isWordChar d || [' ', '.', '-'].contains d) && d != '\u03A3' && lowerChar d == [d]) = true) :
    ∀ d ∈ s, Ordinary d := by
  intro d hd
  have := List.all_eq_true.mp h d hd
  simp only [Bool.and_eq_true, Bool.or_eq_true, List.contains_iff_mem, bne_iff_ne, beq_iff_eq] at this
  exact ⟨this.1.1, d, this.1.2, this.2⟩

theorem ordinary_blank : Ordinary ' ' := ⟨.inr (by simp), ' ', by decide, rfl⟩

theorem read_ordinary {c d : Char} (hd : isWordChar d = true ∨ d ∈ [' ', '.', '-']) (hl : Lowers c d) {s : List Char}
    (hs : d = '-' → s.head? ≠ some '-') : Region.plain.read c s = ⟨[c], .plain, 0⟩ := by
  have hne : c ≠ '/' ∧ c ≠ '\x27' ∧ c ≠ '\x22' ∧ c ≠ '$' := by
    refine ⟨?_, ?_, ?_, ?_⟩ <;>
      · intro e
        subst e
        have hcd := List.singleton_inj.mp hl.2
        subst hcd
        exact absurd hd (by decide)
  have hdash : ¬ (c = '-' ∧ s.head? = some '-') := by
    intro hx
    obtain ⟨rfl, h⟩ := hx
    exact hs (List.singleton_inj.mp hl.2).symm h
  simp [Region.read, tagAt, hne, hdash]

section
variable {p s : List Char} (hl : List.Forall₂ Lowers p s) (h : ∀ d ∈ s, Ordinary d) (hdash : '-' ∉ s.dropLast)
include hl

theorem lowerAfter_lowers (cased : Bool) : lowerAfter cased p = s := by
  induction hl generalizing cased with
  | nil => rfl
  | cons hcd _ ih =>
    rw [lowerAfter, if_neg hcd.1, hcd.2, ih]
    rfl

include h hdash

theorem readAll_ordinary {t : List Char} (ht : t.head? ≠ some '-') :
    Region.plain.readAll 0 p t = ⟨p, .plain, 0⟩ := by
  induction hl with
  | nil => rfl
  | @cons c d p s hcd hl ih =>
    rw [List.forall_mem_cons] at h
    have hs : d = '-' → (p ++ t).head? ≠ some '-' := by
      intro e
      subst e
      cases hl with
      | nil => exact ht
      | cons => simp at hdash
    have hd : '-' ∉ s.dropLast := by
      cases s with
      | nil => simp
      | cons e s =>
        rw [List.dropLast_cons_cons, List.mem_cons, not_or] at hdash
        exact hdash.2
    simp only [Region.readAll, read_ordinary h.1.1 hcd hs, ih h.2 hd]
    rfl

end

theorem lower_eq_self {s : List Char} (h : ∀ c ∈ s, Lowers c c) : lower s = s :=
  lowerAfter_lowers (List.forall₂_same.mpr h) false

/-- Ordinary characters are the normal form of some text, and plain text goes on behind it. -/
theorem exists_text {s : List Char} (h : ∀ d ∈ s, Ordinary d) (hdash : '-' ∉ s.dropLast) :
    ∃ p, normal p = s ∧ ∀ t, t.head? ≠ some '-' → PlainAt p t := by
  have hp : ∃ p, List.Forall₂ Lowers p s := by
    clear hdash
    induction s with
    | nil => exact ⟨[], .nil⟩
    | cons d s ih =>
      rw [List.forall_mem_cons] at h
      obtain ⟨c, hc⟩ := h.1.2
      obtain ⟨p, hp⟩ := ih h.2
      exact ⟨c :: p, .cons hc hp⟩
  obtain ⟨p, hl⟩ := hp
  have plain : ∀ t : List Char, t.head? ≠ some '-' → PlainAt p t := by
    intro t ht
    rw [PlainAt, readAll_ordinary hl h hdash ht]
    exact ⟨rfl, rfl⟩
  refine ⟨p, ?_, plain⟩
  have hstrip := (plain [] (by simp)).strip_eq
  rw [readAll_ordinary hl h hdash (by simp)] at hstrip
  have hstrip' : strip p = p := by simpa [strip, stripFrom] using hstrip
  rw [normal, hstrip']
  exact lowerAfter_lowers hl false

end MigrationLint.Sql
