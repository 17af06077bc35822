import MigrationLint.Proofs.Tails

/-!
# Statements across a seam

Two words that meet in characters that do not join make the same statement as one word and apart, or as
one word a statement that no policy accepts (`Seam.keeps_detectWords`). Only a quoted extension is read
where the words stand apart alone (`detectWords_extension_quote`).
-/

namespace MigrationLint.Sql

open Text

namespace Seam

variable {u v : Word} {a b : Char} (h : Seam u v a b) {Z : List Word}
include h

/-! ## First words -/

theorem leadWord_mem_iff {texts : List String} (ht : ∀ k ∈ texts, IsKeyword k.toList) (W : List Word) :
    .ofList (leadWord (W ++ (u ++ v) :: Z)) ∈ texts ↔ .ofList (leadWord (W ++ u :: v :: Z)) ∈ texts := by
  cases W with
  | cons w W => exact Iff.rfl
  | nil =>
    rw [List.nil_append, List.nil_append, leadWord, leadWord, List.headD_cons, List.headD_cons]
    by_cases hw : (∀ c ∈ u, isWordChar c = true) ∧ isWordChar b = true
    · have hlead : ∀ w : Word, a ∈ w → .ofList w ∉ texts := by
        intro w ha hm
        have hl := ht _ hm
        rw [String.toList_ofList] at hl
        simp [(h.bare (isIdentChar_of_isLower (hl.2 a ha))).2] at hw
      rw [List.takeWhile_append_of_pos hw.1, List.takeWhile_eq_self_iff.mpr hw.1]
      exact iff_of_false (hlead _ (by simp [h.left_mem])) (hlead _ h.left_mem)
    · rw [takeWhile_append_of_stop fun hu c hc => ?_]
      obtain rfl : b = c := Option.some.inj (h.right.symm.trans hc)
      exact Bool.eq_false_iff.mpr fun hb => hw ⟨hu, hb⟩

theorem grantOrRevoke_eq (W : List Word) :
    grantOrRevoke (W ++ (u ++ v) :: Z) = grantOrRevoke (W ++ u :: v :: Z) := by
  simp only [grantOrRevoke, List.contains_iff_mem, h.leadWord_mem_iff isKeyword_grantOrRevoke]

end Seam

/-! ## All forms -/

theorem strict_of {make : String → Statement} (hm : ∀ p name, (make name).Accepted p → p.Approves name) :
    Strict make := fun _ hn p ha => not_approves_of_dotDot hn p (hm p _ ha)

theorem strict₂_of {make : String → String → Statement}
    (hm : ∀ p first second, (make first second).Accepted p → p.Approves first ∧ p.Approves second) : Strict₂ make :=
  ⟨fun _ _ hn p ha => not_approves_of_dotDot hn p (hm p _ _ ha).1,
    fun _ _ hn p ha => not_approves_of_dotDot hn p (hm p _ _ ha).2⟩

/-- The keyword `extension` and a quoted name are read where they stand apart alone. -/
def Quotes (W : List Word) (u : Word) (b : Char) : Prop :=
  W = ["create".toList] ∧ u = "extension".toList ∧ b = '\x22'

theorem detectWords_extension_quote (r : Word) (Z : List Word) :
    detectWords ("create".toList :: ("extension".toList ++ '\x22' :: r) :: Z) = none := rfl

namespace Seam

variable {u v : Word} {a b : Char} (h : Seam u v a b) {Z : List Word}
include h

theorem keeps_createExtension {W : List Word} (hq : ¬ Quotes W u b) :
    Keeps (Form.read ⟨createExtensionHead, extensionName⟩ (W ++ (u ++ v) :: Z))
      (Form.read ⟨createExtensionHead, extensionName⟩ (W ++ u :: v :: Z)) := by
  have hl : Lowercase createExtensionHead := lowercase_forms ⟨createExtensionHead, extensionName⟩ (by simp [forms])
  have htail : ∀ W, Keeps (extensionName (W ++ (u ++ v) :: Z)) (extensionName (W ++ u :: v :: Z)) :=
    fun W => .of_eq (h.extensionName_append W)
  by_cases hb : b = '\x22'
  · -- a quote may stand behind a keyword of the head, and no name can
    obtain ⟨hcreate, hl⟩ := hl.cons
    obtain ⟨hext, hl⟩ := hl.cons
    have hcreate : IsKeyword "create".toList := hcreate _ (by simp [Part.texts])
    have hext : IsKeyword "extension".toList := hext _ (by simp [Part.texts])
    simp only [Form.read, createExtensionHead]
    match W with
    | [] =>
      apply Keeps.of_eq
      rw [List.nil_append, List.nil_append, findSome?_only, findSome?_only, if_neg (h.ne_keyword hcreate)]
      split
      · rename_i hu
        rw [findSome?_only, if_neg (h.right_ne_keyword hext (h.left_lower hcreate hu))]
      · rfl
    | [w] =>
      apply Keeps.of_eq
      simp only [List.singleton_append, findSome?_only]
      by_cases hw : w = "create".toList
      · have hu : u ≠ "extension".toList := fun hu => hq ⟨by rw [hw], hu, hb⟩
        rw [if_pos hw, if_pos hw, if_neg (h.ne_keyword hext), if_neg hu]
      · rw [if_neg hw, if_neg hw]
    | w :: w' :: W =>
      simp only [List.cons_append, findSome?_only]
      split
      · split
        · refine h.keeps_read hl (fun k hk hu _ => ?_) htail W
          obtain rfl : k = "exists" := by simpa [Part.closers, ifNotExists] using hk
          obtain rfl : 's' = a := by simpa [hu] using h.left
          exact absurd (.inr (.inr (.inr (.inr (.inr ⟨rfl, hb⟩))))) h.apart
        · exact .of_eq rfl
      · exact .of_eq rfl
  · exact h.keeps_read hl
      (fun _ _ _ ha => h.extensionName_right (isExtensionChar_iff.mpr (.inl (isIdentChar_of_isLower ha))) hb) htail W

omit h in
/-- A tail that takes nothing from behind a keyword at a seam and keeps its result. -/
structure Carried (u v : Word) (a : Char) (Z : List Word) (tail : List Word → Option Statement) : Prop where
  right : a.isLower = true → tail (v :: Z) = none
  keeps : ∀ W, Keeps (tail (W ++ (u ++ v) :: Z)) (tail (W ++ u :: v :: Z))

theorem carried_oneName {make : String → Statement} (hm : Strict make) : Carried u v a Z (oneName make) :=
  ⟨fun ha => h.oneName_right make (isIdentChar_of_isLower ha), h.keeps_oneName hm⟩

theorem carried_nameOnName {between : List Part} (hb : Lowercase between) {make : String → String → Statement}
    (hm : Strict₂ make) : Carried u v a Z (nameOnName between make) :=
  ⟨fun ha => h.nameOnName_right between make (isIdentChar_of_isLower ha), h.keeps_nameOnName hb hm⟩

theorem carried_nameThenOn {make : String → String → Statement} (hm : Strict₂ make) :
    Carried u v a Z (nameThenOn make) :=
  ⟨fun ha => h.nameThenOn_right make (isIdentChar_of_isLower ha), h.keeps_nameThenOn hm⟩

theorem carried_grantOrRevoke : Carried u v a Z grantOrRevoke := by
  refine ⟨fun ha => ?_, fun W => .of_eq (h.grantOrRevoke_eq W)⟩
  obtain ⟨t, rfl⟩ := h.right_eq
  have hb := (h.bare (isIdentChar_of_isLower ha)).2
  simp [grantOrRevoke, leadWord, hb]

theorem carried_tail : ∀ f ∈ forms, f = ⟨createExtensionHead, extensionName⟩ ∨ Carried u v a Z f.tail := by
  have hone : ∀ {make}, (∀ p name, (make name).Accepted p → p.Approves name) → Carried u v a Z (oneName make) :=
    fun hm => h.carried_oneName (strict_of hm)
  have hcolumn : Carried u v a Z columnTable :=
    ⟨fun ha => h.columnTable_right (isIdentChar_of_isLower ha), h.keeps_columnTable⟩
  have hcalled : Carried u v a Z calledName :=
    ⟨fun ha => h.calledName_right (isIdentChar_of_isLower ha), h.keeps_calledName⟩
  simp only [forms, List.forall_mem_cons]
  refine ⟨.inr (hone fun _ _ => id), .inr (h.carried_nameOnName lowercase_nil (strict₂_of fun _ _ _ => id)),
    .inr (hone fun _ _ => id), .inr (h.carried_nameOnName lowercase_only (strict₂_of fun _ _ _ => id)),
    .inr (hone fun _ _ => id), .inr (hone fun _ _ => id), .inr (hone fun _ _ => id), .inr (hone fun _ _ => id),
    .inr (h.carried_nameThenOn (strict₂_of fun _ _ _ => id)), .inr ⟨h.objectName_right, h.keeps_objectName⟩,
    .inl trivial, .inr hcolumn, .inr hcalled, .inr h.carried_grantOrRevoke,
    .inr (h.carried_nameThenOn (strict₂_of fun _ _ _ => id)), by simp⟩

theorem keeps_detectWords {W : List Word} (hq : ¬ Quotes W u b) :
    Keeps (detectWords (W ++ (u ++ v) :: Z)) (detectWords (W ++ u :: v :: Z)) := by
  refine .findSome? fun f hf => ?_
  rcases h.carried_tail (Z := Z) f hf with rfl | ht
  · exact h.keeps_createExtension hq
  · exact h.keeps_read (lowercase_forms f hf) (fun _ _ _ => ht.right) ht.keeps W

end Seam

end MigrationLint.Sql
