import MigrationLint.Proofs.Seams
import MigrationLint.Proofs.Words

/-!
# Heads across a seam

Let two words meet in characters that do not join. A head reads the same where they are one word and
where they stand apart, or it ends at the seam; then it is the tail that must take nothing from behind
the seam (`Seam.keeps_read`).
-/

namespace MigrationLint.Sql

open Text


/-- A statement that no policy accepts. -/
def Statement.Hopeless (st : Statement) : Prop := ∀ p, ¬ st.Accepted p

/-- The first result is the second, or a statement that no policy accepts. -/
def Keeps (r₁ r₂ : Option Statement) : Prop := r₁ = r₂ ∨ ∃ st, r₁ = some st ∧ st.Hopeless

theorem Keeps.of_eq {r₁ r₂ : Option Statement} (h : r₁ = r₂) : Keeps r₁ r₂ := .inl h

theorem Keeps.of_hopeless {st : Statement} (h : st.Hopeless) (r : Option Statement) : Keeps (some st) r :=
  .inr ⟨st, rfl, h⟩

theorem Keeps.or {r₁ r₂ s₁ s₂ : Option Statement} (hr : Keeps r₁ r₂) (hs : Keeps s₁ s₂) :
    Keeps (r₁.or s₁) (r₂.or s₂) := by
  rcases hr with rfl | ⟨st, rfl, h⟩
  · cases r₁ with
    | none => simpa using hs
    | some st => exact .of_eq rfl
  · exact .of_hopeless h _

theorem Keeps.findSome? {α : Type} {l : List α} {f g : α → Option Statement} (h : ∀ x ∈ l, Keeps (f x) (g x)) :
    Keeps (l.findSome? f) (l.findSome? g) := by
  induction l with
  | nil => exact .of_eq rfl
  | cons x l ih =>
    have ih := ih fun y hy => h y (by simp [hy])
    rw [show x :: l = [x] ++ l from rfl, List.findSome?_append, List.findSome?_append]
    refine .or ?_ ih
    have hx := h x (by simp)
    rw [List.findSome?_cons, List.findSome?_cons]
    cases hf : f x <;> cases hg : g x <;> simpa [hf, hg] using hx

theorem findSome?_congr {α : Type} {l : List α} {f g : α → Option Statement} (h : ∀ x ∈ l, f x = g x) :
    l.findSome? f = l.findSome? g := by
  induction l with
  | nil => rfl
  | cons x l ih =>
    rw [List.findSome?_cons, List.findSome?_cons, h x (by simp), ih fun y hy => h y (by simp [hy])]

/-- Where a name has two dots in a row, no policy accepts the statement. -/
def Strict (make : String → Statement) : Prop := ∀ n, DotDot n → (make (.ofList n)).Hopeless

structure Strict₂ (make : String → String → Statement) : Prop where
  left : ∀ n second, DotDot n → (make (.ofList n) second).Hopeless
  right : ∀ first n, DotDot n → (make first (.ofList n)).Hopeless

theorem isKeyword_ddl : ∀ k ∈ ddlWords, IsKeyword k.toList := by decide

/-! ## Heads -/

def Part.texts : Part → List String
  | .keyword choices => choices
  | .maybe phrases => phrases.flatten

/-- The texts after which a part may be read. -/
def Part.closers : Part → List String
  | .keyword choices => choices
  | .maybe phrases => phrases.filterMap List.getLast?

def Lowercase (ps : List Part) : Prop := ∀ k ∈ ps.flatMap Part.texts, IsKeyword k.toList

instance (ps : List Part) : Decidable (Lowercase ps) := by unfold Lowercase; infer_instance

theorem lowercase_nil : Lowercase [] := by decide

theorem lowercase_only : Lowercase [only] := by decide

theorem lowercase_forms : ∀ f ∈ forms, Lowercase f.head := by decide +kernel

theorem Lowercase.cons {part : Part} {ps : List Part} (h : Lowercase (part :: ps)) :
    (∀ k ∈ part.texts, IsKeyword k.toList) ∧ Lowercase ps :=
  ⟨fun k hk => h k (by simp [hk]), fun k hk => h k (by
    rw [List.flatMap_cons]
    exact List.mem_append_right _ hk)⟩

theorem findSome?_keyword (choices : List String) (ps : List Part) (tail : List Word → Option Statement)
    (w : Word) (ws : List Word) :
    (readings (.keyword choices :: ps) (w :: ws)).findSome? tail =
      if ∃ k ∈ choices, k.toList = w then (readings ps ws).findSome? tail else none := by
  rw [readings]
  by_cases h : ∃ k ∈ choices, k.toList = w
  · rw [if_pos h, if_pos (by simpa using h)]
  · rw [if_neg h, if_neg (by simpa using h), List.findSome?_nil]

theorem findSome?_only (k : String) (ps : List Part) (tail : List Word → Option Statement) (w : Word)
    (ws : List Word) :
    (readings (.keyword [k] :: ps) (w :: ws)).findSome? tail =
      if w = k.toList then (readings ps ws).findSome? tail else none := by
  rw [findSome?_keyword]
  exact if_congr (by simp [eq_comm]) rfl rfl

theorem findSome?_maybe (phrases : List (List String)) (ps : List Part) (tail : List Word → Option Statement)
    (ws : List Word) :
    (readings (.maybe phrases :: ps) ws).findSome? tail =
      (phrases.findSome? fun ph => (after? ph ws).bind fun rest => (readings ps rest).findSome? tail).or
        ((readings ps ws).findSome? tail) := by
  rw [readings, List.flatMap_append, List.findSome?_append]
  congr 1
  · induction phrases with
    | nil => rfl
    | cons ph phrases ih =>
      rw [List.findSome?_cons, List.filterMap_cons]
      cases after? ph ws with
      | none => exact ih
      | some rest =>
        rw [List.flatMap_cons, List.findSome?_append, ih, Option.bind_some]
        cases (readings ps rest).findSome? tail <;> rfl
  · simp

/-- A head takes nothing from a word that is no keyword. -/
theorem readings_of_ne {ps : List Part} (hps : Lowercase ps) {v : Word} (hv : ∀ k, IsKeyword k → v ≠ k)
    {tail : List Word → Option Statement} {Z : List Word} (ht : tail (v :: Z) = none) :
    (readings ps (v :: Z)).findSome? tail = none := by
  induction ps with
  | nil => simp [readings, ht]
  | cons part ps ih =>
    obtain ⟨hk, hps'⟩ := hps.cons
    have ih := ih hps'
    cases part with
    | keyword choices =>
      rw [findSome?_keyword, if_neg]
      intro hx
      obtain ⟨k, hm, rfl⟩ := hx
      exact hv _ (hk k hm) rfl
    | «maybe» phrases =>
      rw [findSome?_maybe, ih, Option.or_none, List.findSome?_eq_none_iff]
      intro ph hph
      cases ph with
      | nil => simpa [after?] using ih
      | cons k ks =>
        have hne := hv _ (hk k (List.mem_flatten.mpr ⟨_, hph, by simp⟩))
        simp [after?, hne]

theorem dotColumn_dot (r : Word) (ws : List Word) :
    dotColumn ('.' :: r) ws = (skipBlank r ws).1.head?.any fun c => isNameChar c && c != '.' := rfl

theorem longestName?_append (wanted : Word → Bool) (u v : Word) :
    longestName? wanted (u ++ v) =
      (if u.all isNameChar then (longestName? wanted v).map (u ++ ·) else none).or
        (longestName? (fun r => wanted (r ++ v)) u) := by
  induction u with
  | nil => simp [longestName?]
  | cons c u ih =>
    cases hc : isNameChar c with
    | false => simp [longestName?, hc]
    | true =>
      simp only [List.cons_append, longestName?, hc, if_true, ih, List.all_cons, Bool.true_and]
      cases hu : u.all isNameChar with
      | true =>
        rw [if_pos rfl]
        cases longestName? wanted v <;> rfl
      | false => rfl

theorem longestName?_head {wanted : Word → Bool} {w n : Word} (h : longestName? wanted w = some n) :
    n.head? = w.head? ∧ ∀ c ∈ w.head?, isNameChar c = true := by
  cases w with
  | nil => cases h
  | cons c w =>
    rw [longestName?] at h
    split at h
    · rename_i hc
      refine ⟨?_, by simpa using hc⟩
      split at h
      · cases h
        rfl
      · split at h <;> cases h
        rfl
    · cases h

namespace Seam

variable {u v : Word} {a b : Char} (h : Seam u v a b) {Z : List Word}
include h

/-- A phrase ends before the seam in both texts, or it ends at the seam and fits the words that stand
apart alone. -/
theorem after?_eq {ph : List String} (hk : ∀ k ∈ ph, IsKeyword k.toList) (W : List Word) :
    (∃ W', after? ph (W ++ (u ++ v) :: Z) = some (W' ++ (u ++ v) :: Z) ∧
        after? ph (W ++ u :: v :: Z) = some (W' ++ u :: v :: Z)) ∨
      after? ph (W ++ (u ++ v) :: Z) = none ∧
        (after? ph (W ++ u :: v :: Z) = none ∨
          after? ph (W ++ u :: v :: Z) = some (v :: Z) ∧ ∃ k, ph.getLast? = some k ∧ u = k.toList) := by
  induction ph generalizing W with
  | nil => exact .inl ⟨W, rfl, rfl⟩
  | cons k ks ih =>
    have hks : ∀ k ∈ ks, IsKeyword k.toList := fun k hm => hk k (List.mem_cons_of_mem _ hm)
    have hk₀ : IsKeyword k.toList := hk k (by simp)
    cases W with
    | nil =>
      refine .inr ⟨by simp [after?, h.ne_keyword hk₀], ?_⟩
      by_cases hu : u = k.toList
      · cases ks with
        | nil => exact .inr ⟨by simp [after?, hu], k, rfl, hu⟩
        | cons k' ks =>
          have hv := h.right_ne_keyword (hks k' (by simp)) (h.left_lower hk₀ hu)
          exact .inl (by simp [after?, hv])
      · exact .inl (by simp [after?, hu])
    | cons w W =>
      by_cases hw : w = k.toList
      · simp only [List.cons_append, after?, if_pos hw]
        rcases ih hks W with h | ⟨h₁, h₂ | ⟨h₂, k', hk', hu⟩⟩
        · exact .inl h
        · exact .inr ⟨h₁, .inl h₂⟩
        · exact .inr ⟨h₁, .inr ⟨h₂, k', by simp [List.getLast?_cons, hk'], hu⟩⟩
      · exact .inr ⟨by simp [after?, hw], .inl (by simp [after?, hw])⟩

section
variable {ps : List Part} {tail : List Word → Option Statement}
  (ih : ∀ W, Keeps ((readings ps (W ++ (u ++ v) :: Z)).findSome? tail)
    ((readings ps (W ++ u :: v :: Z)).findSome? tail))
include ih

theorem keeps_keyword {choices : List String} (hk : ∀ k ∈ choices, IsKeyword k.toList)
    (dead : ∀ k ∈ choices, u = k.toList → (readings ps (v :: Z)).findSome? tail = none) (W : List Word) :
    Keeps ((readings (.keyword choices :: ps) (W ++ (u ++ v) :: Z)).findSome? tail)
      ((readings (.keyword choices :: ps) (W ++ u :: v :: Z)).findSome? tail) := by
  cases W with
  | nil =>
    apply Keeps.of_eq
    rw [List.nil_append, List.nil_append, findSome?_keyword, findSome?_keyword, if_neg]
    · split
      · rename_i hu
        obtain ⟨k, hm, rfl⟩ := hu
        exact (dead k hm rfl).symm
      · rfl
    · intro hx
      obtain ⟨k, hm, hu⟩ := hx
      exact h.ne_keyword (hk k hm) hu.symm
  | cons w W =>
    rw [List.cons_append, List.cons_append, findSome?_keyword, findSome?_keyword]
    split
    · exact ih W
    · exact .of_eq rfl

theorem keeps_maybe {phrases : List (List String)} (hk : ∀ ph ∈ phrases, ∀ k ∈ ph, IsKeyword k.toList)
    (dead : ∀ ph ∈ phrases, ∀ k, ph.getLast? = some k → u = k.toList → (readings ps (v :: Z)).findSome? tail = none)
    (W : List Word) :
    Keeps ((readings (.maybe phrases :: ps) (W ++ (u ++ v) :: Z)).findSome? tail)
      ((readings (.maybe phrases :: ps) (W ++ u :: v :: Z)).findSome? tail) := by
  rw [findSome?_maybe, findSome?_maybe]
  refine .or (.findSome? fun ph hph => ?_) (ih W)
  rcases h.after?_eq (hk ph hph) W (Z := Z) with ⟨W', h₁, h₂⟩ | ⟨h₁, h₂ | ⟨h₂, k, hl, hu⟩⟩
  · rw [h₁, h₂]
    exact ih W'
  · rw [h₁, h₂]
    exact .of_eq rfl
  · rw [h₁, h₂, Option.bind_some, dead ph hph k hl hu]
    exact .of_eq rfl

end

/-- A head is read across a seam if its tail is, and if the tail takes nothing from behind the seam once
the head has come to it. -/
theorem keeps_read {ps : List Part} (hps : Lowercase ps) {tail : List Word → Option Statement}
    (hclose : ∀ k ∈ ps.flatMap Part.closers, u = k.toList → a.isLower = true → tail (v :: Z) = none)
    (htail : ∀ W, Keeps (tail (W ++ (u ++ v) :: Z)) (tail (W ++ u :: v :: Z))) (W : List Word) :
    Keeps ((readings ps (W ++ (u ++ v) :: Z)).findSome? tail) ((readings ps (W ++ u :: v :: Z)).findSome? tail) := by
  induction ps generalizing W with
  | nil => simpa [readings] using htail W
  | cons part ps ih =>
    rw [List.flatMap_cons] at hclose
    obtain ⟨hk, hps'⟩ := hps.cons
    have ih := ih hps' fun k hm => hclose k (List.mem_append_right _ hm)
    have dead : ∀ k ∈ part.closers, IsKeyword k.toList → u = k.toList →
        (readings ps (v :: Z)).findSome? tail = none := by
      intro k hm hk hu
      have ha := h.left_lower hk hu
      exact readings_of_ne hps' (fun k' hk' => h.right_ne_keyword hk' ha)
        (hclose k (List.mem_append_left _ hm) hu ha)
    cases part with
    | keyword choices => exact h.keeps_keyword ih hk (fun k hm hu => dead k hm (hk k hm) hu) W
    | «maybe» phrases =>
      have hk' : ∀ ph ∈ phrases, ∀ k ∈ ph, IsKeyword k.toList :=
        fun ph hph k hm => hk k (List.mem_flatten.mpr ⟨ph, hph, hm⟩)
      refine h.keeps_maybe ih hk' (fun ph hph k hl hu => ?_) W
      exact dead k (List.mem_filterMap.mpr ⟨ph, hph, hl⟩) (hk' ph hph k (List.mem_of_mem_getLast? hl)) hu

end Seam

end MigrationLint.Sql
