import Mathlib.Data.List.Lex
import Mathlib.Data.Prod.Lex
import Mathlib.Data.String.Basic
import MigrationLint.Files.Path

/-!
# The order of paths

Paths are compared by their parts (`pathLe_iff`), so different paths can be equal in the order, and a list
may be sorted in several ways. One of them keeps the elements of each key as they stand
(`StablySorted.unique`); that is what sorting gives (`stablySorted_mergeSort`).
-/

namespace MigrationLint

/-! ## Parts -/

theorem PathPart.key_injective : Function.Injective fun a : PathPart => toLex (a.rank, a.text) := by
  intro a b h
  cases a <;> cases b <;> simp_all [rank, text]

/-- The root before a leading dot, that before `..`, that before names, and names by their characters. -/
instance : LinearOrder PathPart := LinearOrder.lift' _ PathPart.key_injective

theorem PathPart.lt_iff {a b : PathPart} : a.lt b = true ↔ a < b := by
  have h : a < b ↔ toLex (a.rank, a.text) < toLex (b.rank, b.text) := Iff.rfl
  rw [h, Prod.Lex.toLex_lt_toLex, lt]
  simp

theorem cons_le_cons_iff {a b : PathPart} {as bs : List PathPart} :
    a :: as ≤ b :: bs ↔ a < b ∨ a = b ∧ as ≤ bs := by
  rw [le_iff_eq_or_lt, List.cons_lt_cons_iff, le_iff_eq_or_lt, List.cons.injEq]
  tauto

theorem partsLe_iff {as bs : List PathPart} : partsLe as bs = true ↔ as ≤ bs := by
  fun_induction partsLe as bs with
  | case1 bs =>
    refine iff_of_true rfl ?_
    cases bs with
    | nil => exact le_rfl
    | cons b bs => exact le_of_lt (List.nil_lt_cons b bs)
  | case2 a as => exact iff_of_false (by simp) (not_le_of_gt (List.nil_lt_cons a as))
  | case3 a as b bs ih =>
    rw [cons_le_cons_iff, Bool.or_eq_true, Bool.and_eq_true, Bool.not_eq_true', ← Bool.not_eq_true,
      PathPart.lt_iff, PathPart.lt_iff, ih, not_lt]
    constructor
    · rintro (h | ⟨h, hs⟩)
      · exact .inl h
      · exact (lt_or_eq_of_le h).imp_right fun e => ⟨e, hs⟩
    · rintro (h | ⟨rfl, hs⟩)
      · exact .inl h
      · exact .inr ⟨le_rfl, hs⟩

theorem pathLe_iff {a b : String} : pathLe a b = true ↔ pathParts a ≤ pathParts b := partsLe_iff

/-- A file below a folder comes before a file whose name goes on with an earlier character than the slash. -/
example : pathLe "a/b.sql" "a-b.sql" = true ∧ pathLe "a-b.sql" "a/b.sql" = false := by decide

/-! ## Sorting by a key -/

section
variable {α κ : Type} [LinearOrder κ]

/-- The elements of a list by their keys; those of one key stand in the order of the list. -/
structure StablySorted (key : α → κ) (l sorted : List α) : Prop where
  perm : sorted.Perm l
  ordered : sorted.Pairwise fun a b => key a ≤ key b
  stable : ∀ k, (sorted.filter fun a => key a = k) = l.filter fun a => key a = k

variable {key : α → κ} {l l' s t : List α} {k : κ}

theorem key_of_mem_filter {a : α} (h : a ∈ l.filter fun a => key a = k) : key a = k := by
  simpa using List.of_mem_filter h

theorem filter_filter_key {P : α → Prop} [DecidablePred P] (h : ∀ a, key a = k → P a) (l : List α) :
    ((l.filter fun a => P a).filter fun a => key a = k) = l.filter fun a => key a = k := by
  rw [List.filter_filter]
  refine List.filter_congr fun a _ => ?_
  by_cases hk : key a = k
  · simp [hk, h a hk]
  · simp [hk]

theorem filter_filter_key_of_not {P : α → Prop} [DecidablePred P] (h : ∀ a, key a = k → ¬ P a) (l : List α) :
    ((l.filter fun a => P a).filter fun a => key a = k) = [] := by
  rw [List.filter_filter, List.filter_eq_nil_iff]
  intro a _
  by_cases hk : key a = k
  · simp [hk, h a hk]
  · simp [hk]

theorem stablySorted_mergeSort {le : α → α → Bool} (hle : ∀ a b, le a b = true ↔ key a ≤ key b)
    (l : List α) :
    StablySorted key l (l.mergeSort le) := by
  have trans : ∀ a b c, le a b = true → le b c = true → le a c = true := by
    simp only [hle]
    exact fun a b c => le_trans
  have total : ∀ a b, (le a b || le b a) = true := by
    simp only [Bool.or_eq_true, hle]
    exact fun a b => le_total _ _
  have hperm := List.mergeSort_perm l le
  refine ⟨hperm, ?_, fun k => ?_⟩
  · simpa only [hle] using List.pairwise_mergeSort trans total l
  · -- the elements of one key are sorted as they stand, so sorting leaves them in this order
    have hkey : (l.filter fun a => key a = k).Pairwise fun a b => le a b = true := by
      refine List.pairwise_of_forall_mem_list fun a ha b hb => (hle a b).mpr ?_
      rw [key_of_mem_filter ha, key_of_mem_filter hb]
    have hsub := (List.sublist_mergeSort trans total hkey List.filter_sublist).filter fun a => key a = k
    rw [filter_filter_key fun a => id] at hsub
    exact (hsub.eq_of_length (hperm.filter _).length_eq.symm).symm

theorem eq_of_ordered (hs : s.Pairwise fun a b => key a ≤ key b) (ht : t.Pairwise fun a b => key a ≤ key b)
    (hperm : s.Perm t) (hstable : ∀ k, (s.filter fun a => key a = k) = t.filter fun a => key a = k) : s = t := by
  induction s generalizing t with
  | nil => exact hperm.nil_eq
  | cons a s ih =>
    cases t with
    | nil => exact absurd hperm.symm.nil_eq.symm (by simp)
    | cons b t =>
      rw [List.pairwise_cons] at hs ht
      -- both lists start with the least key, so they start with its first element
      have hab : key a = key b := by
        apply le_antisymm
        · rcases List.mem_cons.mp (hperm.mem_iff.mpr List.mem_cons_self) with e | hb
          · rw [e]
          · exact hs.1 b hb
        · rcases List.mem_cons.mp (hperm.mem_iff.mp List.mem_cons_self) with e | ha
          · rw [e]
          · exact ht.1 a ha
      have hfirst := hstable (key b)
      rw [List.filter_cons_of_pos (by simpa using hab), List.filter_cons_of_pos (by simp)] at hfirst
      obtain rfl := (List.cons.inj hfirst).1
      rw [ih hs.2 ht.2 ((List.perm_cons a).mp hperm) fun k => ?_]
      have hk := hstable k
      rw [List.filter_cons, List.filter_cons] at hk
      split at hk
      · exact (List.cons.inj hk).2
      · exact hk

theorem StablySorted.unique (hs : StablySorted key l s) (ht : StablySorted key l t) : s = t :=
  eq_of_ordered hs.ordered ht.ordered (hs.perm.trans ht.perm.symm) fun k => (hs.stable k).trans (ht.stable k).symm

/-- Where no two elements have the same key, the order of the list does not matter. -/
theorem StablySorted.of_perm (hp : l'.Perm l) (hd : l.Pairwise fun a b => key a ≠ key b)
    (h : StablySorted key l s) : StablySorted key l' s := by
  refine ⟨h.perm.trans hp.symm, h.ordered, fun k => (h.stable k).trans ?_⟩
  have hfilter : (l'.filter fun a => key a = k).Perm (l.filter fun a => key a = k) := hp.filter _
  have hone : (l.filter fun a => key a = k).Pairwise fun a b => key a ≠ key b := hd.filter _
  match he : l.filter fun a => key a = k with
  | [] => exact (List.perm_nil.mp (he ▸ hfilter)).symm
  | [a] => exact (List.perm_singleton.mp (he ▸ hfilter)).symm
  | a :: b :: _ =>
    have hmem : ∀ c ∈ [a, b], key c = k := fun c hc => key_of_mem_filter (l := l) (by rw [he]; simp_all; tauto)
    rw [he] at hone
    exact absurd ((hmem a (by simp)).trans (hmem b (by simp)).symm) ((List.pairwise_cons.mp hone).1 b (by simp))

theorem filter_lt_append (hs : s.Pairwise fun a b => key a ≤ key b) (k : κ) :
    (s.filter fun a => key a < k) ++ ((s.filter fun a => key a = k) ++ s.filter fun a => k < key a) = s := by
  induction s with
  | nil => rfl
  | cons a s ih =>
    rw [List.pairwise_cons] at hs
    have ih := ih hs.2
    have hlt : k ≤ key a → (s.filter fun a => key a < k) = [] := fun h =>
      List.filter_eq_nil_iff.mpr fun b hb => by simpa using h.trans (hs.1 b hb)
    have heq : k < key a → (s.filter fun a => key a = k) = [] := fun h =>
      List.filter_eq_nil_iff.mpr fun b hb => by simpa using (h.trans_le (hs.1 b hb)).ne'
    rcases lt_trichotomy (key a) k with h | h | h
    · simp only [List.filter_cons, h, h.ne, h.not_gt, decide_true, decide_false, if_true, List.cons_append, ih,
        Bool.false_eq_true, if_false]
    · rw [hlt h.ge, List.nil_append] at ih
      simp [h, hlt h.ge, ih]
    · rw [hlt h.le, heq h, List.nil_append, List.nil_append] at ih
      simp [h, h.ne', h.not_gt, hlt h.le, heq h, ih]

/-- A further element goes to one place, which depends on its key alone. -/
theorem StablySorted.insert {u v : List α} (h : StablySorted key (u ++ v) s) (k : κ) :
    ∃ pre post, pre ++ post = s ∧ ∀ a, key a = k → StablySorted key (u ++ a :: v) (pre ++ a :: post) := by
  have hs : (s.filter fun a => key a < k) ++ (u.filter fun a => key a = k) ++
      ((v.filter fun a => key a = k) ++ s.filter fun a => k < key a) = s := by
    have hk := h.stable k
    rw [List.filter_append] at hk
    conv_rhs => rw [← filter_lt_append h.ordered k, hk]
    simp
  refine ⟨_, _, hs, fun a ha => ⟨?_, ?_, fun j => ?_⟩⟩
  · have hperm := h.perm
    rw [← hs] at hperm
    exact List.perm_middle.trans ((hperm.cons a).trans List.perm_middle.symm)
  · have hordered := h.ordered
    rw [← hs, List.pairwise_append] at hordered
    obtain ⟨hpre, hpost, hacross⟩ := hordered
    rw [List.pairwise_append, List.pairwise_cons]
    refine ⟨hpre, ⟨?_, hpost⟩, ?_⟩
    · intro b hb
      rw [ha]
      rcases List.mem_append.mp hb with hb | hb
      · exact (key_of_mem_filter hb).ge
      · exact le_of_lt (by simpa using List.of_mem_filter hb)
    · intro b hb c hc
      rcases List.mem_cons.mp hc with rfl | hc
      · rw [ha]
        rcases List.mem_append.mp hb with hb | hb
        · exact le_of_lt (by simpa using List.of_mem_filter hb)
        · exact (key_of_mem_filter hb).le
      · exact hacross b hb c hc
  · have hj := h.stable j
    rw [← hs] at hj
    by_cases hjk : j = k
    · subst hjk
      have hlow : ∀ b, key b = j → ¬ key b < j := fun b hb => hb.not_lt
      have hhigh : ∀ b, key b = j → ¬ j < key b := fun b hb => hb.not_gt
      simp only [List.filter_append, List.filter_cons, filter_filter_key_of_not hlow, filter_filter_key_of_not hhigh,
        filter_filter_key fun b => id, List.nil_append, List.append_nil]
    · have haj : ¬ key a = j := fun e => hjk (e ▸ ha)
      rw [List.filter_append, List.filter_cons_of_neg (by simpa using haj), ← List.filter_append, hj,
        List.filter_append, List.filter_append, List.filter_cons_of_neg (by simpa using haj)]

end

end MigrationLint
