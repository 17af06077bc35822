import Mathlib.Data.List.Forall2
import MigrationLint.Policy.Load
import MigrationLint.Proofs.Lowering
import MigrationLint.Sql.Check

/-!
# Letters of either case

A scan reads an ASCII letter of either case in the same way, the letters of tags apart, and lowercase forgets
the case that it keeps (`normal_toLower`). Settings are put into lowercase item by item, so the case of their
letters does not reach the policy either (`resolve_sameLetters`).
-/

namespace MigrationLint

open Text

/-- The texts differ in the case of ASCII letters only. -/
def SameLetters (s t : String) : Prop := s.toList.map Char.toLower = t.toList.map Char.toLower

instance (s t : String) : Decidable (SameLetters s t) := by unfold SameLetters; infer_instance

theorem lowercase_sameLetters {s t : String} (h : SameLetters s t) : lowercase s = lowercase t := by
  unfold lowercase
  rw [← lower_toLower s.toList, h, lower_toLower]

/-! ## Texts without a tag -/

namespace Sql

theorem head?_toLower {d : Char} (hd : d.isAlpha = false) (s : List Char) :
    (s.map Char.toLower).head? = some d ↔ s.head? = some d := by
  cases s with
  | nil => exact Iff.rfl
  | cons c s =>
    simp only [List.map_cons, List.head?_cons, Option.some.injEq]
    exact toLower_eq_iff hd

theorem tagAt_of_ne {c : Char} (hc : c ≠ '$') (s : List Char) : tagAt (c :: s) = none := by
  simp only [tagAt, hc, false_and, if_false]

/-- A region that no tag closes. -/
def Region.Untagged (r : Region) : Prop := ∀ tag, r ≠ .body tag

theorem read_toLower {r : Region} (hr : r.Untagged) {c : Char} (hc : c ≠ '$') (s : List Char) :
    r.read c.toLower (s.map Char.toLower) =
        ⟨(r.read c s).out.map Char.toLower, (r.read c s).region, (r.read c s).skip⟩ ∧
      (r.read c s).region.Untagged := by
  have hmark : ∀ {d}, d.isAlpha = false → (c.toLower = d ↔ c = d) := fun hd => toLower_eq_iff hd
  have hnext : ∀ {d}, d.isAlpha = false → ((s.map Char.toLower).head? = some d ↔ s.head? = some d) :=
    fun hd => head?_toLower hd s
  cases r with
  | body tag => exact absurd rfl (hr tag)
  | line =>
    simp only [Region.read, hmark (d := '\n') (by decide)]
    split <;> exact ⟨rfl, fun _ h => by cases h⟩
  | block =>
    simp only [Region.read, hmark (d := '*') (by decide), hnext (d := '/') (by decide)]
    split <;> exact ⟨rfl, fun _ h => by cases h⟩
  | literal =>
    simp only [Region.read, hmark (d := '\x27') (by decide), hnext (d := '\x27') (by decide)]
    split
    · split <;> exact ⟨rfl, fun _ h => by cases h⟩
    · exact ⟨rfl, fun _ h => by cases h⟩
  | quoted =>
    simp only [Region.read, hmark (d := '\x22') (by decide), hnext (d := '\x22') (by decide)]
    split
    · split <;> exact ⟨rfl, fun _ h => by cases h⟩
    · exact ⟨rfl, fun _ h => by cases h⟩
  | plain =>
    have hc' : c.toLower ≠ '$' := mt (hmark (by decide)).mp hc
    simp only [Region.read, hmark (d := '-') (by decide), hmark (d := '/') (by decide), hmark (d := '\x27') (by decide),
      hmark (d := '\x22') (by decide), hnext (d := '-') (by decide), hnext (d := '*') (by decide), tagAt_of_ne hc,
      tagAt_of_ne hc']
    repeat' split
    all_goals exact ⟨rfl, fun _ h => by cases h⟩

theorem stripFrom_toLower {r : Region} (hr : r.Untagged) (k : Nat) {s : List Char} (hs : '$' ∉ s) :
    stripFrom r k (s.map Char.toLower) = (stripFrom r k s).map Char.toLower := by
  induction s generalizing r k with
  | nil => rfl
  | cons c s ih =>
    rw [List.mem_cons, not_or] at hs
    cases k with
    | succ k => exact ih hr k hs.2
    | zero =>
      obtain ⟨hread, hr'⟩ := read_toLower hr (Ne.symm hs.1) s
      rw [List.map_cons, stripFrom, stripFrom, hread, List.map_append, ih hr' _ hs.2]

theorem normal_toLower {s : List Char} (hs : '$' ∉ s) : normal (s.map Char.toLower) = normal s := by
  have hplain : Region.plain.Untagged := fun _ h => by cases h
  unfold normal strip
  rw [stripFrom_toLower hplain 0 hs, lower_toLower]

theorem check_sameLetters (p : Policy) {sql sql' : String} (h : SameLetters sql sql') (hs : '$' ∉ sql.toList)
    (hs' : '$' ∉ sql'.toList) : check p sql = check p sql' := by
  have hnormal : normal sql.toList = normal sql'.toList := by
    rw [← normal_toLower hs, h, normal_toLower hs']
  unfold check
  rw [hnormal]

end Sql

/-! ## Settings -/

theorem isBlank_toLower (c : Char) : isBlank c.toLower = isBlank c := by
  rcases Nat.lt_or_ge c.toNat 128 with h | h
  · exact forall_ascii (P := fun c => isBlank c.toLower = isBlank c) (by decide) h
  · rw [toLower_of_ge h]

theorem trim_toLower (s : List Char) : trim (s.map Char.toLower) = (trim s).map Char.toLower := by
  have hblank : isBlank ∘ Char.toLower = isBlank := funext isBlank_toLower
  have hdrop : ∀ s : List Char, (s.map Char.toLower).dropWhile isBlank = (s.dropWhile isBlank).map Char.toLower := by
    intro s
    rw [List.dropWhile_map, hblank]
  unfold trim trimEnd trimStart
  rw [hdrop, ← List.map_reverse, hdrop, List.map_reverse]

namespace Settings

/-- The settings hold the same fields, whose strings differ in the case of ASCII letters only. -/
structure SameLetters (a b : Settings) : Prop where
  required : Option.Rel MigrationLint.SameLetters a.requiredPrefix b.requiredPrefix
  allowed : Option.Rel (List.Forall₂ MigrationLint.SameLetters) a.allowedSchemas b.allowedSchemas
  blocked : Option.Rel (List.Forall₂ MigrationLint.SameLetters) a.blockedSchemas b.blockedSchemas
  extensions : Option.Rel (List.Forall₂ MigrationLint.SameLetters) a.allowedExtensions b.allowedExtensions

theorem rel_or {α : Type} {R : α → α → Prop} {a a' b b' : Option α} (ha : Option.Rel R a a') (hb : Option.Rel R b b') :
    Option.Rel R (a.or b) (a'.or b') := by
  cases ha with
  | some h => exact .some h
  | none => exact hb

theorem SameLetters.onTopOf {a a' b b' : Settings} (ha : a.SameLetters a') (hb : b.SameLetters b') :
    (a.onTopOf b).SameLetters (a'.onTopOf b') where
  required := rel_or ha.required hb.required
  allowed := rel_or ha.allowed hb.allowed
  blocked := rel_or ha.blocked hb.blocked
  extensions := rel_or ha.extensions hb.extensions

end Settings

namespace Policy

theorem new_sameLetters {s t : String} (h : SameLetters s t) : new s = new t := by
  have hname : lower (trim s.toList) = lower (trim t.toList) := by
    rw [← lower_toLower (trim s.toList), ← trim_toLower, h, trim_toLower, lower_toLower]
  unfold new
  rw [hname]

theorem new_getD_sameLetters {a b : Option String} (h : Option.Rel SameLetters a b) :
    new (a.getD "") = new (b.getD "") := by
  cases h with
  | some h => exact new_sameLetters h
  | none => rfl

theorem lowercaseSet_sameLetters {xs ys : List String} (h : List.Forall₂ SameLetters xs ys) :
    lowercaseSet xs = lowercaseSet ys := by
  have hmap : xs.map lowercase = ys.map lowercase := by
    induction h with
    | nil => rfl
    | cons h _ ih => rw [List.map_cons, List.map_cons, lowercase_sameLetters h, ih]
  unfold lowercaseSet
  rw [hmap]

theorem elim_sameLetters {a b : Option (List String)} (h : Option.Rel (List.Forall₂ SameLetters) a b) (p : Policy)
    {f : Policy → List String → Policy} (hf : ∀ p xs ys, lowercaseSet xs = lowercaseSet ys → f p xs = f p ys) :
    a.elim p (f p) = b.elim p (f p) := by
  cases h with
  | some h => exact hf p _ _ (lowercaseSet_sameLetters h)
  | none => rfl

theorem ofSettings_sameLetters {a b : Settings} (h : a.SameLetters b) : ofSettings a = ofSettings b := by
  have allowed := fun p : Policy => elim_sameLetters h.allowed p (f := withAllowedSchemas)
    fun p xs ys e => by rw [withAllowedSchemas, withAllowedSchemas, e]
  have blocked := fun p : Policy => elim_sameLetters h.blocked p (f := withBlockedSchemas)
    fun p xs ys e => by rw [withBlockedSchemas, withBlockedSchemas, e]
  have extensions := fun p : Policy => elim_sameLetters h.extensions p (f := withAllowedExtensions)
    fun p xs ys e => by rw [withAllowedExtensions, withAllowedExtensions, e]
  unfold ofSettings
  simp only [new_getD_sameLetters h.required, allowed, blocked, extensions]

theorem resolve_sameLetters {file file' above above' : Settings} (hf : file.SameLetters file')
    (ha : above.SameLetters above') : resolve file above = resolve file' above' :=
  ofSettings_sameLetters (ha.onTopOf hf)

end Policy

/-! ## Checks and policies -/

/-- **Letters of either case.** A check does not see the case of the ASCII letters of a text without a dollar
sign, nor a policy that of the letters of its settings. The letters of a tag count. -/
theorem case_insensitive :
    (∀ (p : Policy) (sql sql' : String), SameLetters sql sql' → '$' ∉ sql.toList → '$' ∉ sql'.toList →
        Sql.check p sql = Sql.check p sql') ∧
      (∀ file file' above above' : Settings, file.SameLetters file' → above.SameLetters above' →
        Policy.resolve file above = Policy.resolve file' above') ∧
      ∃ (p : Policy) (sql sql' : String), SameLetters sql sql' ∧ Sql.check p sql ≠ Sql.check p sql' := by
  refine ⟨fun p _ _ => Sql.check_sameLetters p, fun _ _ _ _ => Policy.resolve_sameLetters, ?_⟩
  exact ⟨⟨"cb_", [], [], []⟩, "$a$ $a$; revoke x", "$a$ $A$; revoke x", by decide, by decide⟩

theorem case_insensitive_grant :
    let p : Policy := ⟨"cb_", ["public"], ["auth"], []⟩
    let sql := "GRANT All /* Σ */ on \x22Auth\x22.\x22ΑΣ\x22 to X; select 'S'"
    let sql' := "grant aLL /* Σ */ on \x22auth\x22.\x22ΑΣ\x22 to x; Select 's'"
    let file : Settings := ⟨some " Cb_", some ["Public"], none, none⟩
    let file' : Settings := ⟨some " cB_", some ["puBlic"], none, none⟩
    let above : Settings := ⟨none, none, some ["AUTH", "ΑΣ"], some []⟩
    let above' : Settings := ⟨none, none, some ["auth", "ΑΣ"], some []⟩
    (SameLetters sql sql' ∧ '$' ∉ sql.toList ∧ '$' ∉ sql'.toList ∧ Sql.check p sql = Sql.check p sql') ∧
      file.SameLetters file' ∧ above.SameLetters above' ∧
      Policy.resolve file above = Policy.resolve file' above' := by
  have hfile : Settings.SameLetters ⟨some " Cb_", some ["Public"], none, none⟩
      ⟨some " cB_", some ["puBlic"], none, none⟩ :=
    ⟨.some (by decide), .some (.cons (by decide) .nil), .none, .none⟩
  have habove : Settings.SameLetters ⟨none, none, some ["AUTH", "ΑΣ"], some []⟩
      ⟨none, none, some ["auth", "ΑΣ"], some []⟩ :=
    ⟨.none, .none, .some (.cons (by decide) (.cons (by decide) .nil)), .some .nil⟩
  exact ⟨⟨by decide, by decide, by decide, case_insensitive.1 _ _ _ (by decide) (by decide) (by decide)⟩, hfile, habove,
    case_insensitive.2.1 _ _ _ _ hfile habove⟩

end MigrationLint
