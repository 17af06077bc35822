import MigrationLint.Proofs.Faithful

/-!
# A blank between two texts

Where a statement is clean with nothing between two of its characters, and the characters do not join, it
is clean with a blank between them, too (`clean_blank`).
-/

namespace MigrationLint.Sql

open Text

/-! ## Statements -/

section
variable {u v : Word} {a b : Char} (h : Seam u v a b) {W Z : List Word}
include h

/-- Two words that become one at a seam are no identifiers, and neither is that one. -/
theorem Seam.schemas_eq :
    schemas ((W ++ (u ++ v) :: Z).flatMap tokens) = schemas ((W ++ u :: v :: Z).flatMap tokens) := by
  simp only [List.flatMap_append, List.flatMap_cons]
  by_cases hw : isWordChar a = true ∧ isWordChar b = true
  · obtain ⟨T, x, y, R, hu, hv, hx, hy, huv⟩ := tokens_append_of_word h.left h.right hw.1 hw.2
    have ha : isIdentChar a = false := Bool.eq_false_iff.mpr fun ha => by simp [(h.bare ha).2] at hw
    have hxa : a ∈ x := List.mem_of_mem_getLast? hx
    have not_ident : ∀ w : List Char, a ∈ w → isIdent w = false := fun w hm =>
      Bool.eq_false_iff.mpr fun hi => by simp [isIdentChar_of_mem hi hm] at ha
    have hyi : isIdent y = false := by
      obtain ⟨t, rfl⟩ := List.head?_eq_some_iff.mp hy
      have hb : b ≠ '_' := fun hb => h.apart (.inr (.inr (.inr (.inl ⟨hw.1, .inr hb⟩))))
      simp [isIdent, h.not_lower hw.1, hb]
    have hxi := not_ident x hxa
    have hxyi := not_ident (x ++ y) (by simp [hxa])
    rw [hu, hv, huv]
    have hJ : W.flatMap tokens ++ (T ++ .word (x ++ y) :: R ++ Z.flatMap tokens) =
        (W.flatMap tokens ++ T) ++ .word (x ++ y) :: (R ++ Z.flatMap tokens) := by simp
    have hS : W.flatMap tokens ++ (T ++ [.word x] ++ (.word y :: R ++ Z.flatMap tokens)) =
        (W.flatMap tokens ++ T) ++ .word x :: ([] ++ .word y :: (R ++ Z.flatMap tokens)) := by simp
    rw [hJ, hS, schemas_append hxyi, schemas_append hxi, schemas_append hyi]
    rfl
  · rw [tokens_append, List.append_assoc]
    intro a' ha b' hb
    obtain rfl := Option.some.inj (h.left.symm.trans ha)
    obtain rfl := Option.some.inj (h.right.symm.trans hb)
    rwa [not_and_or, Bool.not_eq_true, Bool.not_eq_true] at hw

theorem Seam.targets_drift : Drift (targets (W ++ (u ++ v) :: Z)) (targets (W ++ u :: v :: Z)) := by
  cases W with
  | nil =>
    rw [List.nil_append, List.nil_append, targets, targets, h.clauses_append isKeyword_references]
    exact .refl _
  | cons w W => exact h.clauses_drift isKeyword_references [] w W Z

theorem Seam.clean {p : Policy} (hc : Clean p (W ++ (u ++ v) :: Z)) : Clean p (W ++ u :: v :: Z) := by
  obtain ⟨hs, hd⟩ := hc
  refine ⟨h.schemas_eq ▸ hs, fun hddl => ?_⟩
  obtain ⟨⟨st, hst, hacc⟩, ht⟩ := hd ((h.leadWord_mem_iff isKeyword_ddl W).mpr hddl)
  refine ⟨?_, h.targets_drift.approves ht⟩
  by_cases hq : Quotes W u b
  · obtain ⟨rfl, rfl, rfl⟩ := hq
    obtain ⟨t, rfl⟩ := h.right_eq
    cases hst.symm.trans (detectWords_extension_quote t Z)
  · rcases h.keeps_detectWords (Z := Z) hq with he | ⟨st', hst', hhope⟩
    · exact ⟨st, he ▸ hst, hacc⟩
    · obtain rfl := Option.some.inj (hst.symm.trans hst')
      exact (hhope p hacc).elim

end

/-! ## Texts -/

theorem pieces_head (cut : Char → Bool) (s : List Char) : ∃ y Y, pieces cut s = y :: Y ∧ y <+: s := by
  induction s with
  | nil => exact ⟨[], [], rfl, List.nil_prefix⟩
  | cons c s ih =>
    obtain ⟨y, Y, hy, hs⟩ := ih
    rw [pieces, hy]
    split
    · exact ⟨[], _, rfl, List.nil_prefix⟩
    · exact ⟨c :: y, Y, rfl, List.cons_prefix_cons.mpr ⟨rfl, hs⟩⟩

theorem pieces_last (cut : Char → Bool) (s : List Char) :
    ∃ X x, x <:+ s ∧ ∀ t y Y, pieces cut t = y :: Y → pieces cut (s ++ t) = X ++ (x ++ y) :: Y := by
  suffices h : ∃ X x, x <:+ s ∧ (X = [] → x = s) ∧
      ∀ t y Y, pieces cut t = y :: Y → pieces cut (s ++ t) = X ++ (x ++ y) :: Y by
    obtain ⟨X, x, hx, -, hs⟩ := h
    exact ⟨X, x, hx, hs⟩
  induction s with
  | nil => exact ⟨[], [], List.suffix_rfl, fun _ => rfl, fun t y Y h => h⟩
  | cons c s ih =>
    obtain ⟨X, x, hx, hX, hs⟩ := ih
    cases hc : cut c with
    | true =>
      refine ⟨[] :: X, x, hx.trans (List.suffix_cons c s), by simp, fun t y Y h => ?_⟩
      simp [pieces, hc, hs t y Y h]
    | false =>
      cases X with
      | nil =>
        obtain rfl := hX rfl
        refine ⟨[], c :: x, List.suffix_rfl, fun _ => rfl, fun t y Y h => ?_⟩
        simp [pieces, hc, hs t y Y h]
      | cons w X =>
        refine ⟨(c :: w) :: X, x, hx.trans (List.suffix_cons c s), by simp, fun t y Y h => ?_⟩
        simp [pieces, hc, hs t y Y h]

theorem clean_blank {p : Policy} {A B : List Char} (hj : ∀ a ∈ A.getLast?, ∀ b ∈ B.head?, ¬ Joins a b)
    (h : ∀ piece ∈ pieces (· == ';') (A ++ B), Clean p (blocks piece)) :
    ∀ piece ∈ pieces (· == ';') (A ++ ' ' :: B), Clean p (blocks piece) := by
  obtain ⟨X, x, hx, hA⟩ := pieces_last (· == ';') A
  obtain ⟨y, Y, hB, hy⟩ := pieces_head (· == ';') B
  have hB' : pieces (· == ';') (' ' :: B) = (' ' :: y) :: Y := by simp [pieces, hB]
  rw [hA B y Y hB, List.forall_mem_append, List.forall_mem_cons] at h
  rw [hA _ _ _ hB', List.forall_mem_append, List.forall_mem_cons]
  refine ⟨h.1, ?_, h.2.2⟩
  have hmid := h.2.1
  rw [blocks_append_blank (by decide)]
  by_cases hs : ∀ a ∈ x.getLast?, ∀ b ∈ y.head?, isBlank a = true ∨ isBlank b = true
  · rwa [blocks_append_of_blank hs] at hmid
  · simp only [not_forall, not_or, Bool.not_eq_true] at hs
    obtain ⟨a, ha, b, hb, ha', hb'⟩ := hs
    obtain ⟨W, u, v, Z, hwx, hwy, hu, hv, hw⟩ := blocks_append_of_not_blank ha hb ha' hb'
    have hA' : A.getLast? = some a := by
      obtain ⟨s, rfl⟩ := hx
      simp [List.getLast?_append, Option.mem_def.mp ha]
    have hB' : B.head? = some b := by
      obtain ⟨t, rfl⟩ := hy
      simp [Option.mem_def.mp hb]
    have hseam : Seam u v a b := ⟨hu, hv, hj a hA' b hB'⟩
    rw [hw] at hmid
    rw [hwx, hwy, List.append_assoc]
    exact hseam.clean hmid

/-! ## Final sigmas -/

/-- The form of a sigma in the middle of a word, for any sigma. -/
def midSigma (c : Char) : Char := if c = '\u03C2' then '\u03C3' else c

theorem faithful_midSigma : Faithful midSigma where
  ascii c hc := by
    rw [midSigma, if_neg]
    intro e
    subst e
    exact absurd hc (by decide)
  beyond c hc := by
    rw [midSigma]
    split
    · decide
    · exact hc
  blank c := by
    rw [midSigma]
    split
    · rename_i h
      rw [h]
      decide
    · rfl
  word c := by
    rw [midSigma]
    split
    · rename_i h
      rw [h]
      decide +kernel
    · rfl

theorem lowerAfter_map (cased : Bool) (s : List Char) :
    (lowerAfter cased s).map midSigma =
      s.flatMap fun c => if c = '\u03A3' then ['\u03C3'] else (lowerChar c).map midSigma := by
  induction s generalizing cased with
  | nil => rfl
  | cons c s ih =>
    rw [lowerAfter, List.map_append, ih, List.flatMap_cons]
    congr 1
    split
    · split <;> rfl
    · rfl

theorem lower_append (s t : List Char) :
    (lower (s ++ t)).map midSigma = (lower s).map midSigma ++ (lower t).map midSigma := by
  simp only [lower, lowerAfter_map, List.flatMap_append]

/-- Which form a sigma has does not matter to a check. -/
theorem not_flagged_iff_of_map {p : Policy} {s t : List Char} (h : (normal s).map midSigma = t.map midSigma) :
    ¬ Flagged p s ↔ ∀ piece ∈ pieces (· == ';') t, Clean p (blocks piece) := by
  have hcut : ∀ c, (midSigma c == ';') = (c == ';') := by
    intro c
    rw [Bool.eq_iff_iff, beq_iff_eq, beq_iff_eq]
    exact faithful_midSigma.eq_iff (by decide)
  have forget : ∀ t : List Char, (∀ piece ∈ pieces (· == ';') (t.map midSigma), Clean p (blocks piece)) ↔
      ∀ piece ∈ pieces (· == ';') t, Clean p (blocks piece) := by
    intro t
    rw [Faithful.pieces_map hcut]
    simp [faithful_midSigma.blocks_map, faithful_midSigma.clean_iff]
  rw [not_flagged_iff, ← forget, h, forget]

end MigrationLint.Sql
