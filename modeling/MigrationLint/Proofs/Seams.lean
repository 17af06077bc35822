import MigrationLint.Proofs.Clauses
import MigrationLint.Proofs.Names

/-!
# Seams

Two words stand next to each other with nothing between them. If their characters at the seam do not
join, reading them as one word finds the same names and clauses as reading them apart, except that two
dots may meet in a name. No policy approves of such a name.
-/

namespace MigrationLint.Sql

open Text

/-- The pairs of characters that stand for something else next to each other than with a blank between
them: they may continue a word or a name, end one, or put a quote behind a keyword. -/
def Joins (a b : Char) : Prop :=
  (isExtensionChar a = true ∧ isExtensionChar b = true) ∨
  (isIdentChar a = true ∧ (b = '.' ∨ isWordChar b = true)) ∨
  (a = '.' ∧ isIdentChar b = true) ∨
  (isWordChar a = true ∧ (b.isLower = true ∨ b = '_')) ∨
  (a = '\x22' ∧ isExtensionChar b = true) ∨
  (a = 's' ∧ b = '\x22')

instance (a b : Char) : Decidable (Joins a b) := by unfold Joins; infer_instance

/-- The words `u` and `v` meet in characters that do not join. -/
structure Seam (u v : Word) (a b : Char) : Prop where
  left : u.getLast? = some a
  right : v.head? = some b
  apart : ¬ Joins a b

def DotDot (n : Word) : Prop := ['.', '.'] <:+: n

theorem DotDot.ne_nil {n : Word} (h : DotDot n) : n ≠ [] := by
  intro e
  subst e
  simp [DotDot] at h

theorem not_approves_of_dotDot {n : Word} (h : DotDot n) (p : Policy) : ¬ p.Approves (.ofList n) := by
  have h2 : 2 ≤ n.count '.' := by simpa using h.sublist.count_le '.'
  intro hx
  obtain ⟨name, -, hn, -, h | ⟨schema, hs, h, -⟩⟩ := hx
  · rw [← String.toList_inj, String.toList_ofList] at h
    rw [h, List.count_eq_zero_of_not_mem hn] at h2
    omega
  · rw [← String.toList_inj, String.toList_ofList] at h
    simp only [String.toList_append] at h
    rw [h, List.count_append, List.count_append, List.count_eq_zero_of_not_mem hn,
      List.count_eq_zero_of_not_mem hs] at h2
    simp at h2


/-! ## Characters at a seam -/

namespace Seam

variable {u v : Word} {a b : Char} (h : Seam u v a b)
include h

theorem left_eq : ∃ t, u = t ++ [a] := List.getLast?_eq_some_iff.mp h.left

theorem right_eq : ∃ t, v = b :: t := List.head?_eq_some_iff.mp h.right

theorem left_ne : u ≠ [] := by
  intro e
  subst e
  cases h.left

theorem left_mem : a ∈ u := List.mem_of_mem_getLast? h.left

theorem right_mem : b ∈ v := List.mem_of_mem_head? h.right

theorem not_extension (ha : isExtensionChar a = true) : isExtensionChar b = false :=
  Bool.eq_false_iff.mpr fun hb => h.apart (.inl ⟨ha, hb⟩)

/-- Nothing that a name or a word could go on with stands behind an identifier. -/
theorem bare (ha : isIdentChar a = true) : isNameChar b = false ∧ isWordChar b = false := by
  have hw : isWordChar b = false := Bool.eq_false_iff.mpr fun hb => h.apart (.inr (.inl ⟨ha, .inr hb⟩))
  refine ⟨Bool.eq_false_iff.mpr fun hb => ?_, hw⟩
  rcases isNameChar_iff.mp hb with hb | hb
  · simp [isWordChar_of_isIdentChar hb] at hw
  · exact h.apart (.inr (.inl ⟨ha, .inl hb⟩))

theorem not_lower (ha : isWordChar a = true) : b.isLower = false :=
  Bool.eq_false_iff.mpr fun hb => h.apart (.inr (.inr (.inr (.inl ⟨ha, .inl hb⟩))))

theorem dots (ha : isNameChar a = true) (hb : isNameChar b = true) : a = '.' ∧ b = '.' := by
  rcases isNameChar_iff.mp ha with ha | rfl
  · simp [(h.bare ha).1] at hb
  · rcases isNameChar_iff.mp hb with hb | rfl
    · exact absurd (.inr (.inr (.inl ⟨rfl, hb⟩))) h.apart
    · exact ⟨rfl, rfl⟩

theorem not_lower_both (ha : a.isLower = true) (hb : b.isLower = true) : False := by
  have := h.not_lower (isWordChar_of_isIdentChar (isIdentChar_of_isLower ha))
  simp [hb] at this

theorem ne_keyword {k : Word} (hk : IsKeyword k) : u ++ v ≠ k := by
  intro e
  subst e
  exact h.not_lower_both (hk.2 a (by simp [h.left_mem])) (hk.2 b (by simp [h.right_mem]))

theorem left_lower {k : Word} (hk : IsKeyword k) (hu : u = k) : a.isLower = true := hk.2 a (hu ▸ h.left_mem)

theorem right_ne_keyword {k : Word} (hk : IsKeyword k) (ha : a.isLower = true) : v ≠ k := by
  intro e
  subst e
  exact h.not_lower_both ha (hk.2 b h.right_mem)

/-! ## Names at a seam -/

theorem nameRun_right (hb : isNameChar b = false) : nameRun v = [] := by
  obtain ⟨t, rfl⟩ := h.right_eq
  exact nameRun_cons_of_not hb t

theorem nameRun_right_head (hb : isNameChar b = true) : (nameRun v).head? = some b := by
  obtain ⟨t, rfl⟩ := h.right_eq
  simp [nameRun, hb]

theorem dotDot (ha : isNameChar a = true) (hb : isNameChar b = true) {n : Word} (hn : n.head? = some b) :
    DotDot (u ++ n) := by
  obtain ⟨rfl, rfl⟩ := h.dots ha hb
  obtain ⟨s, rfl⟩ := h.left_eq
  obtain ⟨t, rfl⟩ := List.head?_eq_some_iff.mp hn
  exact ⟨s, t, by simp⟩

theorem nameRun_eq_or_dotDot : nameRun (u ++ v) = nameRun u ∨ DotDot (nameRun (u ++ v)) := by
  by_cases hu : ∀ c ∈ u, isNameChar c = true
  · rw [nameRun_append_of_all hu]
    cases hb : isNameChar b with
    | true => exact .inr (h.dotDot (hu a h.left_mem) hb (h.nameRun_right_head hb))
    | false => exact .inl (by rw [h.nameRun_right hb, nameRun, List.takeWhile_eq_self_iff.mpr hu, List.append_nil])
  · exact .inl (nameRun_append_of_not hu).1

theorem nameRun_eq_nil_iff : nameRun (u ++ v) = [] ↔ nameRun u = [] := by
  obtain ⟨c, t, rfl⟩ := List.exists_cons_of_ne_nil h.left_ne
  simp only [nameRun, List.cons_append, List.takeWhile_cons]
  split <;> simp

/-! ## Clauses at a seam -/

/-- What stands behind the name of the left word meets the right word in the same characters. -/
theorem rest (hu : u.dropWhile isNameChar ≠ []) : Seam (u.dropWhile isNameChar) v a b := by
  refine ⟨?_, h.right, h.apart⟩
  have hl := h.left
  rw [← nameRun_append_rest u, List.getLast?_append] at hl
  rw [List.getLast?_eq_some_getLast hu] at hl ⊢
  exact hl

section
variable {key : Word} (hk : IsKeyword key)
include hk

theorem endsWithWord_append (before : Word) : endsWithWord key before (u ++ v) = endsWithWord key [] v := by
  rw [Bool.eq_iff_iff, endsWithWord_iff, endsWithWord_iff]
  constructor
  · intro hx
    obtain ⟨t, ht, hb⟩ := hx
    rcases List.append_eq_append_iff.mp ht with ⟨t', rfl, ht'⟩ | ⟨s, hs, ht'⟩
    · refine ⟨t', ht', fun c hc => hb c ?_⟩
      rw [List.nil_append] at hc
      simp [List.getLast?_append, Option.mem_def.mp hc]
    · by_cases hs0 : s = []
      · exact ⟨[], by simpa [hs0] using ht'.symm, by simp⟩
      · -- the keyword would lie across the seam
        have ha : a ∈ s := by
          have hl := h.left
          rw [hs, List.getLast?_append, List.getLast?_eq_some_getLast hs0] at hl
          obtain rfl : s.getLast hs0 = a := by simpa using hl
          exact List.getLast_mem hs0
        exact (h.not_lower_both (hk.2 a (by simp [ht', ha])) (hk.2 b (by simp [ht', h.right_mem]))).elim
  · intro hx
    obtain ⟨t, ht, hb⟩ := hx
    refine ⟨u ++ t, by rw [ht, List.append_assoc], ?_⟩
    cases t with
    | cons e t => simpa [List.getLast?_append, List.getLast?_cons] using hb
    | nil =>
      intro c hc
      rw [List.append_nil, List.getLast?_append, h.left] at hc
      obtain rfl : a = c := by simpa using hc
      have hb : b.isLower = true := hk.2 b (by
        rw [List.nil_append] at ht
        exact ht ▸ h.right_mem)
      rw [Bool.eq_false_iff]
      intro ha
      simp [h.not_lower ha] at hb

theorem clauses_left (before : Word) (Z : List Word) :
    clauses key before u (v :: Z) = clauses key [] v Z := by
  cases he : endsWithWord key before u with
  | false => exact clauses_of_not he v Z
  | true =>
    have hb := (h.bare (isIdentChar_of_isLower (endsWithWord_last hk h.left he))).1
    simp [clauses, h.nameRun_right hb]

theorem clauses_append (before : Word) (Z : List Word) :
    clauses key before (u ++ v) Z = clauses key before u (v :: Z) := by
  rw [h.clauses_left hk]
  cases Z with
  | nil => rfl
  | cons t ws => simp only [clauses, h.endsWithWord_append hk]

end

end Seam

/-! ## Lists of clauses -/

/-- Two lists agree, at least up to a name with two dots in the first one. -/
inductive Drift : List Word → List Word → Prop where
  | refl (l : List Word) : Drift l l
  | dots {n : Word} (hn : DotDot n) (n' : Word) (l l' : List Word) : Drift (n :: l) (n' :: l')
  | cons (n : Word) {l l' : List Word} : Drift l l' → Drift (n :: l) (n :: l')

theorem Drift.head {l l' : List Word} (h : Drift l l') :
    l.head? = l'.head? ∨ ∃ n, l.head? = some n ∧ DotDot n ∧ l'.head?.isSome := by
  cases h with
  | refl => exact .inl rfl
  | dots hn => exact .inr ⟨_, rfl, hn, rfl⟩
  | cons => exact .inl rfl

theorem Drift.approves {l l' : List Word} (h : Drift l l') {p : Policy} (hl : ∀ n ∈ l, p.Approves (.ofList n)) :
    ∀ n ∈ l', p.Approves (.ofList n) := by
  induction h with
  | refl => exact hl
  | dots hn => exact absurd (hl _ (by simp)) (not_approves_of_dotDot hn p)
  | cons n _ ih =>
    intro m hm
    rcases List.mem_cons.mp hm with rfl | hm
    · exact hl m (by simp)
    · exact ih (fun k hk => hl k (by simp [hk])) m hm

theorem Seam.clauses_drift {u v : Word} {a b : Char} (h : Seam u v a b) {key : Word} (hk : IsKeyword key)
    (before w : Word) (W Z : List Word) :
    Drift (clauses key before w (W ++ (u ++ v) :: Z)) (clauses key before w (W ++ u :: v :: Z)) := by
  induction W generalizing before w with
  | cons t W ih =>
    simp only [List.cons_append, clauses]
    split
    · exact .cons _ (ih _ _)
    · exact ih _ _
  | nil =>
    rw [List.nil_append, List.nil_append, clauses, clauses]
    by_cases hn : endsWithWord key before w = true ∧ nameRun u ≠ []
    · have hn' : nameRun (u ++ v) ≠ [] := mt h.nameRun_eq_nil_iff.mp hn.2
      rw [if_pos (by simpa using ⟨hn.1, hn'⟩), if_pos (by simpa using hn)]
      by_cases hu : ∀ c ∈ u, isNameChar c = true
      · cases hb : isNameChar b with
        | true =>
          rw [nameRun_append_of_all hu]
          exact .dots (h.dotDot (hu a h.left_mem) hb (h.nameRun_right_head hb)) _ _ _
        | false =>
          obtain ⟨t, rfl⟩ := h.right_eq
          rw [nameRun_append_of_all hu, rest_append_of_all hu, h.nameRun_right hb,
            List.dropWhile_cons_of_neg (by simp [hb]), List.append_nil, nameRun,
            List.takeWhile_eq_self_iff.mpr hu, List.dropWhile_eq_nil_iff.mpr hu,
            clauses_of_not (endsWithWord_nil hk [])]
          exact .refl _
      · obtain ⟨h₁, h₂, h₃⟩ := nameRun_append_of_not hu (v := v)
        rw [h₁, h₂, (h.rest h₃).clauses_append hk]
        exact .refl _
    · have hn' : ¬ (endsWithWord key before w = true ∧ nameRun (u ++ v) ≠ []) := by rwa [Ne, h.nameRun_eq_nil_iff]
      rw [if_neg (by simpa using hn'), if_neg (by simpa using hn), h.clauses_append hk]
      exact .refl _

end MigrationLint.Sql
