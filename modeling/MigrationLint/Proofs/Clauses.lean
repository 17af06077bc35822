import Mathlib.Data.List.TakeWhile
import MigrationLint.Proofs.Characters

/-!
# Clauses and names

A keyword cannot straddle the end of a name, so what is read behind a name does not depend on the name
(`endsWithWord_rest`). The word in front of a clause `on` is then read in one of two ways: as a name
with more behind it (`nameThenOn_of_rest`), or as a name that may swallow the `on` (`nameThenOn_of_name`).
-/

namespace MigrationLint.Sql

open Text

/-- The texts that a form or a clause looks for: lowercase letters, at least one. -/
def IsKeyword (k : Word) : Prop := k ≠ [] ∧ ∀ c ∈ k, c.isLower = true

theorem IsKeyword.lt {k : Word} (hk : IsKeyword k) : ∀ c ∈ k, c.toNat < 128 :=
  fun c hc => lt_of_isIdentChar (isIdentChar_of_isLower (hk.2 c hc))

theorem IsKeyword.isWordChar {k : Word} (hk : IsKeyword k) : ∀ c ∈ k, isWordChar c = true :=
  fun c hc => isWordChar_of_isIdentChar (isIdentChar_of_isLower (hk.2 c hc))

theorem IsKeyword.not_blank {k : Word} (hk : IsKeyword k) : ∀ c ∈ k, isBlank c = false :=
  fun c hc => isBlank_of_isWordChar (hk.isWordChar c hc)

instance (k : Word) : Decidable (IsKeyword k) :=
  decidable_of_iff (k ≠ [] ∧ k.all Char.isLower = true) (by simp [IsKeyword])

theorem isKeyword_on : IsKeyword on := by decide

theorem isKeyword_references : IsKeyword "references".toList := by decide

theorem isKeyword_commentObjects : ∀ k ∈ commentObjects, IsKeyword k.toList := by decide

theorem isKeyword_grantOrRevoke : ∀ k ∈ ["grant", "revoke"], IsKeyword k.toList := by decide

/-! ## Names -/

theorem name?_eq_none_iff {w : Word} : name? w = none ↔ nameRun w = [] := by simp [name?]

theorem nameRun_cons_of_not {c : Char} (h : isNameChar c = false) (w : Word) : nameRun (c :: w) = [] := by
  simp [nameRun, h]

theorem nameRun_append_rest (w : Word) : nameRun w ++ w.dropWhile isNameChar = w := List.takeWhile_append_dropWhile

theorem rest_head {w : Word} {c : Char} {t : Word} (h : w.dropWhile isNameChar = c :: t) : isNameChar c = false := by
  apply head_dropWhile (s := w)
  rw [h]
  rfl

theorem takeWhile_append_of_stop {p : Char → Bool} {u v : Word}
    (h : (∀ c ∈ u, p c = true) → ∀ c ∈ v.head?, p c = false) : (u ++ v).takeWhile p = u.takeWhile p := by
  by_cases hu : ∀ c ∈ u, p c = true
  · rw [List.takeWhile_append_of_pos hu, List.takeWhile_eq_self_iff.mpr hu]
    cases v with
    | nil => simp
    | cons b v => simp [h hu b rfl]
  · have hne : u.dropWhile p ≠ [] := fun he => hu (List.dropWhile_eq_nil_iff.mp he)
    rw [List.takeWhile_append, if_neg]
    intro hl
    have := congrArg List.length (List.takeWhile_append_dropWhile (p := p) (l := u))
    rw [List.length_append, hl] at this
    exact hne (List.eq_nil_of_length_eq_zero (by omega))

section
variable {u v : Word}

theorem nameRun_append_of_all (hu : ∀ c ∈ u, isNameChar c = true) : nameRun (u ++ v) = u ++ nameRun v :=
  List.takeWhile_append_of_pos hu

theorem rest_append_of_all (hu : ∀ c ∈ u, isNameChar c = true) :
    (u ++ v).dropWhile isNameChar = v.dropWhile isNameChar := List.dropWhile_append_of_pos hu

theorem nameRun_append_of_not (hu : ¬ ∀ c ∈ u, isNameChar c = true) :
    nameRun (u ++ v) = nameRun u ∧ (u ++ v).dropWhile isNameChar = u.dropWhile isNameChar ++ v ∧
      u.dropWhile isNameChar ≠ [] := by
  have hne : u.dropWhile isNameChar ≠ [] := fun he => hu (List.dropWhile_eq_nil_iff.mp he)
  refine ⟨takeWhile_append_of_stop fun h => absurd h hu, ?_, hne⟩
  rw [List.dropWhile_append, if_neg (by simpa using hne)]

end

/-! ## Clauses -/

theorem endsWithWord_iff {key before w : Word} :
    endsWithWord key before w = true ↔
      ∃ t, w = t ++ key ∧ ∀ c ∈ (before ++ t).getLast?, isWordChar c = false := by
  have boundary : ∀ o : Option Char, (!o.any isWordChar) = true ↔ ∀ c ∈ o, isWordChar c = false := by
    intro o
    cases o <;> simp
  rw [endsWithWord, Bool.and_eq_true, List.isSuffixOf_iff_suffix, boundary]
  constructor
  · intro hx
    obtain ⟨⟨t, rfl⟩, h⟩ := hx
    exact ⟨t, rfl, by simpa only [List.length_append, Nat.add_sub_cancel, List.take_left] using h⟩
  · intro hx
    obtain ⟨t, rfl, h⟩ := hx
    exact ⟨⟨t, rfl⟩, by simpa only [List.length_append, Nat.add_sub_cancel, List.take_left] using h⟩

section
variable {key : Word} (hk : IsKeyword key)
include hk

theorem endsWithWord_nil (before : Word) : endsWithWord key before [] = false := by
  rw [Bool.eq_false_iff, Ne, endsWithWord_iff]
  intro hx
  obtain ⟨t, h, _⟩ := hx
  exact hk.1 (List.append_eq_nil_iff.mp h.symm).2

theorem endsWithWord_last {before w : Word} {a : Char} (ha : w.getLast? = some a)
    (h : endsWithWord key before w = true) : a.isLower = true := by
  obtain ⟨t, rfl, _⟩ := endsWithWord_iff.mp h
  rw [List.getLast?_append, List.getLast?_eq_some_getLast hk.1] at ha
  obtain rfl : key.getLast hk.1 = a := by simpa using ha
  exact hk.2 _ (List.getLast_mem hk.1)

theorem endsWithWord_rest {w : Word} (hw : w.dropWhile isNameChar ≠ []) (before : Word) :
    endsWithWord key before (w.dropWhile isNameChar) = endsWithWord key [] w := by
  obtain ⟨c, d, hd⟩ := List.exists_cons_of_ne_nil hw
  have hc := rest_head hd
  have hw := nameRun_append_rest w
  rw [hd] at hw ⊢
  generalize nameRun w = run at hw
  subst hw
  have hkey : c ∉ key := fun hm => by simp [isNameChar_of_isLower (hk.2 c hm)] at hc
  rw [Bool.eq_iff_iff, endsWithWord_iff, endsWithWord_iff]
  constructor
  · intro hx
    obtain ⟨t, ht, hb⟩ := hx
    cases t with
    | nil => exact absurd (by simp [show key = c :: d from ht.symm]) hkey
    | cons e t =>
      refine ⟨run ++ e :: t, by rw [ht, List.append_assoc], ?_⟩
      simpa [List.getLast?_append, List.getLast?_cons] using hb
  · intro hx
    obtain ⟨t, ht, hb⟩ := hx
    rcases List.append_eq_append_iff.mp ht with ⟨t', rfl, ht'⟩ | ⟨t', -, ht'⟩
    · cases t' with
      | nil => exact absurd (by simp [show key = c :: d by simpa using ht'.symm]) hkey
      | cons e t =>
        refine ⟨e :: t, ht', ?_⟩
        simpa [List.getLast?_append, List.getLast?_cons] using hb
    · exact absurd (by simp [ht']) hkey

omit hk in
theorem clauses_of_not {before w : Word} (h : endsWithWord key before w = false) (t : Word) (ws : List Word) :
    clauses key before w (t :: ws) = clauses key [] t ws := by
  simp [clauses, h]

theorem clauses_rest {w : Word} (hw : w.dropWhile isNameChar ≠ []) (before : Word) (ws : List Word) :
    clauses key before (w.dropWhile isNameChar) ws = clauses key [] w ws := by
  cases ws with
  | nil => rfl
  | cons t ws => simp only [clauses, endsWithWord_rest hk hw]

end

/-! ## The clause `on` behind a name -/

section
variable (make : String → String → Statement) {w : Word} (hn : nameRun w ≠ []) (ws : List Word)
include hn

theorem nameThenOn_of_rest (hw : w.dropWhile isNameChar ≠ []) :
    nameThenOn make (w :: ws) =
      (clauses on [] w ws).head?.map fun t => make (.ofList (nameRun w)) (.ofList t) := by
  rw [nameThenOn, clauses_rest isKeyword_on hw]
  rw [if_neg (by simpa using hn)]
  cases hc : (clauses on [] w ws).head? with
  | some t => rfl
  | none =>
    -- a name behind the `on` would have been a clause
    have hnone : endsWithWord on [] w = true → ws.head?.bind name? = none := by
      intro he
      cases ws with
      | nil => rfl
      | cons t ws =>
        simp only [List.head?_cons, Option.bind_some, name?_eq_none_iff]
        by_contra ht
        simp [clauses, he, ht] at hc
    dsimp only
    split
    · rename_i h
      rw [hnone (Bool.and_eq_true .. ▸ h).1]
      rfl
    · rfl

theorem nameThenOn_of_name (hw : w.dropWhile isNameChar = []) :
    nameThenOn make (w :: ws) =
      ((clauses on w [] ws).head?.map fun t => make (.ofList w) (.ofList t)).or
        (if endsWithWord on [] w && !(w.take (w.length - on.length)).isEmpty
          then (ws.head?.bind name?).map (make (.ofList (w.take (w.length - on.length)))) else none) := by
  have hr : nameRun w = w := by simpa [hw] using nameRun_append_rest w
  rw [nameThenOn, hw, hr]
  rw [hr] at hn
  rw [if_neg (by simpa using hn)]
  cases (clauses on w [] ws).head? <;> rfl

end

end MigrationLint.Sql
