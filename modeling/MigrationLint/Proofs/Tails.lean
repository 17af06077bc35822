import MigrationLint.Proofs.Heads

/-!
# Tails across a seam

What the tail of a form reads where two words are one, it reads where they stand apart, or it has read a
name with two dots in a row. No tail reads a name from behind a keyword that ends at the seam.
-/

namespace MigrationLint.Sql

open Text

namespace Seam

variable {u v : Word} {a b : Char} (h : Seam u v a b) {Z : List Word}
include h

theorem name?_append :
    name? (u ++ v) = name? u ∨ ∃ n, DotDot n ∧ name? (u ++ v) = some (.ofList n) := by
  rcases h.nameRun_eq_or_dotDot with hn | hn
  · exact .inl (by rw [name?, name?, hn])
  · refine .inr ⟨_, hn, ?_⟩
    rw [name?, if_neg]
    simpa using hn.ne_nil

theorem name?_right (ha : isIdentChar a = true) : name? v = none :=
  name?_eq_none_iff.mpr (h.nameRun_right (h.bare ha).1)

theorem keeps_name {make : String → Statement} (hm : Strict make) :
    Keeps ((name? (u ++ v)).map make) ((name? u).map make) := by
  rcases h.name?_append with hn | ⟨n, hd, hn⟩
  · exact .of_eq (by rw [hn])
  · rw [hn]
    exact .of_hopeless (hm n hd) _

theorem keeps_oneName {make : String → Statement} (hm : Strict make) (W : List Word) :
    Keeps (oneName make (W ++ (u ++ v) :: Z)) (oneName make (W ++ u :: v :: Z)) := by
  cases W with
  | cons w W => exact .of_eq rfl
  | nil => exact h.keeps_name hm

theorem oneName_right (make : String → Statement) (ha : isIdentChar a = true) : oneName make (v :: Z) = none := by
  rw [oneName, h.name?_right ha]
  rfl

theorem wholeName?_left (hb : b.isLower = true) : wholeName? u = none := by
  rw [wholeName?, if_neg]
  intro hu
  have := (h.dots (List.all_eq_true.mp hu a h.left_mem) (isNameChar_of_isLower hb)).2
  simp [this] at hb

theorem wholeName?_append {first : String} (hw : wholeName? (u ++ v) = some first) :
    ∃ n, DotDot n ∧ first = .ofList n := by
  rw [wholeName?] at hw
  split at hw
  · rename_i hall
    rw [List.all_eq_true] at hall
    have hn : nameRun (u ++ v) = u ++ v := List.takeWhile_eq_self_iff.mpr hall
    rw [name?, hn] at hw
    refine ⟨u ++ v, h.dotDot (hall a ?_) (hall b ?_) h.right, by split at hw <;> simp_all⟩
    · simp [h.left_mem]
    · simp [h.right_mem]
  · cases hw

omit h in
theorem keeps_none_of_dotDot {make : String → String → Statement} (hm : Strict₂ make) {n : Word} (hn : DotDot n)
    (rests : List (List Word)) : Keeps (rests.findSome? (oneName (make (.ofList n)))) none := by
  cases hs : rests.findSome? (oneName (make (.ofList n))) with
  | none => exact .of_eq rfl
  | some st =>
    obtain ⟨ws, -, hws⟩ := List.exists_of_findSome?_eq_some hs
    cases ws with
    | nil => cases hws
    | cons w ws =>
      obtain ⟨second, -, rfl⟩ := Option.map_eq_some_iff.mp hws
      exact .of_hopeless (hm.left n second hn) _

theorem keeps_nameOnName {between : List Part} (hb : Lowercase between) {make : String → String → Statement}
    (hm : Strict₂ make) (W : List Word) :
    Keeps (nameOnName between make (W ++ (u ++ v) :: Z)) (nameOnName between make (W ++ u :: v :: Z)) := by
  match W with
  | [] =>
    have hv : nameOnName between make (u :: v :: Z) = none := by
      rw [nameOnName]
      split
      · rename_i hv
        rw [h.wholeName?_left (isKeyword_on.2 b (hv ▸ h.right_mem))]
        rfl
      · rfl
    rw [List.nil_append, List.nil_append, hv]
    cases Z with
    | nil => exact .of_eq rfl
    | cons k Z =>
      rw [nameOnName]
      split
      · cases hw : wholeName? (u ++ v) with
        | none => exact .of_eq rfl
        | some first =>
          obtain ⟨n, hn, rfl⟩ := h.wholeName?_append hw
          exact keeps_none_of_dotDot hm hn _
      · exact .of_eq rfl
  | [w] =>
    apply Keeps.of_eq
    rw [List.singleton_append, List.singleton_append, nameOnName, nameOnName, if_neg (h.ne_keyword isKeyword_on)]
    split
    · rename_i hu
      have ha := h.left_lower isKeyword_on hu
      cases wholeName? w with
      | none => rfl
      | some first =>
        rw [Option.bind_some, readings_of_ne hb (fun k hk => h.right_ne_keyword hk ha)
          (h.oneName_right _ (isIdentChar_of_isLower ha))]
    · rfl
  | w :: k :: W =>
    simp only [List.cons_append, nameOnName]
    split
    · cases wholeName? w with
      | none => exact .of_eq rfl
      | some first =>
        exact h.keeps_read hb (fun _ _ _ ha => h.oneName_right _ (isIdentChar_of_isLower ha))
          (fun W => h.keeps_oneName (hm.right first) W) W
    · exact .of_eq rfl

theorem nameOnName_right (between : List Part) (make : String → String → Statement) (ha : isIdentChar a = true) :
    nameOnName between make (v :: Z) = none := by
  have hv : wholeName? v = none := by
    rw [wholeName?, h.name?_right ha, ite_self]
  cases Z with
  | nil => rfl
  | cons k Z => simp [nameOnName, hv]

theorem nameThenOn_left (make : String → String → Statement) (hn : nameRun u ≠ []) :
    nameThenOn make (u :: v :: Z) =
      (clauses on [] v Z).head?.map fun t => make (.ofList (nameRun u)) (.ofList t) := by
  by_cases hr : u.dropWhile isNameChar = []
  · have hu : nameRun u = u := List.takeWhile_eq_self_iff.mpr (List.dropWhile_eq_nil_iff.mp hr)
    rw [nameThenOn_of_name make hn _ hr, clauses_of_not (endsWithWord_nil isKeyword_on u), hu]
    split
    · rename_i he
      have ha := endsWithWord_last isKeyword_on h.left (Bool.and_eq_true .. ▸ he).1
      simp [h.name?_right (isIdentChar_of_isLower ha)]
    · rw [Option.or_none]
  · rw [nameThenOn_of_rest make hn _ hr, h.clauses_left isKeyword_on]

/-- The name in front of an `on` that the right word ends with still has the two dots. -/
theorem dotDot_before (ha : isNameChar a = true) (hb : isNameChar b = true) (he : endsWithWord on [] v = true) :
    DotDot ((u ++ v).take ((u ++ v).length - on.length)) := by
  obtain ⟨t, rfl, _⟩ := endsWithWord_iff.mp he
  rw [← List.append_assoc, List.length_append, Nat.add_sub_cancel, List.take_left]
  cases t with
  | nil =>
    obtain ⟨rfl, rfl⟩ := h.dots ha hb
    cases h.right
  | cons c t => exact h.dotDot ha hb h.right

omit h in
theorem keeps_head_of_dotDot {make : String → String → Statement} (hm : Strict₂ make) {n : Word} (hn : DotDot n)
    (first : String) (l : List Word) :
    Keeps (l.head?.map fun t => make (.ofList n) (.ofList t)) (l.head?.map fun t => make first (.ofList t)) := by
  cases l with
  | nil => exact .of_eq rfl
  | cons t l => exact .of_hopeless (hm.left _ _ hn) _

theorem keeps_nameThenOn_cons {make : String → String → Statement} (hm : Strict₂ make) (w : Word) (W : List Word) :
    Keeps (nameThenOn make (w :: (W ++ (u ++ v) :: Z))) (nameThenOn make (w :: (W ++ u :: v :: Z))) := by
  have hc := (h.clauses_drift isKeyword_on (nameRun w) (w.dropWhile isNameChar) W Z).head
  have hf : (W ++ (u ++ v) :: Z).head?.bind name? = (W ++ u :: v :: Z).head?.bind name? ∨
      ∃ n, DotDot n ∧ (W ++ (u ++ v) :: Z).head?.bind name? = some (.ofList n) := by
    cases W with
    | nil => exact h.name?_append
    | cons t W => exact .inl rfl
  rw [nameThenOn, nameThenOn]
  split
  · exact .of_eq rfl
  · rcases hc with hc | ⟨n, hn, hd, hs⟩
    · rw [hc]
      split
      · exact .of_eq rfl
      · dsimp only
        split
        · rcases hf with hf | ⟨n, hd, hf⟩
          · rw [hf]
            exact .of_eq rfl
          · rw [hf]
            exact .of_hopeless (hm.right _ n hd) _
        · exact .of_eq rfl
    · rw [hn]
      exact .of_hopeless (hm.right _ n hd) _

/-- The two words are a single name, which has two dots where they meet. -/
theorem keeps_nameThenOn_whole {make : String → String → Statement} (hm : Strict₂ make) (hn : nameRun u ≠ [])
    (hall : ∀ c ∈ u ++ v, isNameChar c = true) :
    Keeps (nameThenOn make ((u ++ v) :: Z)) (nameThenOn make (u :: v :: Z)) := by
  have hn' : nameRun (u ++ v) ≠ [] := mt h.nameRun_eq_nil_iff.mp hn
  have ha : isNameChar a = true := hall a (by simp [h.left_mem])
  have hb : isNameChar b = true := hall b (by simp [h.right_mem])
  have hd : DotDot (u ++ v) := h.dotDot ha hb h.right
  rw [h.nameThenOn_left make hn, nameThenOn_of_name make hn' _ (List.dropWhile_eq_nil_iff.mpr hall)]
  cases Z with
  | nil => exact .of_eq (by simp [clauses])
  | cons z Z =>
    rw [clauses_of_not (endsWithWord_nil isKeyword_on _), h.endsWithWord_append isKeyword_on]
    by_cases he : endsWithWord on [] v = true ∧ nameRun z ≠ []
    · -- the `on` at the end of the right word is read as the end of the name
      have hd' := h.dotDot_before ha hb he.1
      rw [if_pos]
      case hc => simpa only [he.1, Bool.true_and, Bool.not_eq_true', List.isEmpty_eq_false_iff] using hd'.ne_nil
      cases (clauses on [] z Z).head? with
      | some t => exact .of_hopeless (hm.left _ _ hd) _
      | none =>
        rw [List.head?_cons, Option.bind_some, name?, if_neg (by simpa using he.2)]
        exact .of_hopeless (hm.left _ _ hd') _
    · have hc : clauses on [] v (z :: Z) = clauses on [] z Z := by
        rw [clauses, if_neg (by simpa using he)]
      rw [hc]
      split
      · rename_i hw
        have hz : nameRun z = [] := by
          by_contra hz
          exact he ⟨(Bool.and_eq_true .. ▸ hw).1, hz⟩
        rw [List.head?_cons, Option.bind_some, name?_eq_none_iff.mpr hz, Option.map_none, Option.or_none]
        exact keeps_head_of_dotDot hm hd _ _
      · rw [Option.or_none]
        exact keeps_head_of_dotDot hm hd _ _

theorem keeps_nameThenOn {make : String → String → Statement} (hm : Strict₂ make) (W : List Word) :
    Keeps (nameThenOn make (W ++ (u ++ v) :: Z)) (nameThenOn make (W ++ u :: v :: Z)) := by
  cases W with
  | cons w W => exact h.keeps_nameThenOn_cons hm w W
  | nil =>
    rw [List.nil_append, List.nil_append]
    by_cases hn : nameRun u = []
    · have hn' := h.nameRun_eq_nil_iff.mpr hn
      exact .of_eq (by rw [nameThenOn, nameThenOn, hn, hn']; rfl)
    by_cases hr : (u ++ v).dropWhile isNameChar = []
    · exact h.keeps_nameThenOn_whole hm hn (List.dropWhile_eq_nil_iff.mp hr)
    have hn' : nameRun (u ++ v) ≠ [] := mt h.nameRun_eq_nil_iff.mp hn
    rw [h.nameThenOn_left make hn, nameThenOn_of_rest make hn' _ hr, h.clauses_append isKeyword_on,
      h.clauses_left isKeyword_on]
    rcases h.nameRun_eq_or_dotDot with he | hd
    · rw [he]
      exact .of_eq rfl
    · exact keeps_head_of_dotDot hm hd _ _

theorem nameThenOn_right (make : String → String → Statement) (ha : isIdentChar a = true) :
    nameThenOn make (v :: Z) = none := by
  rw [nameThenOn, h.nameRun_right (h.bare ha).1]
  rfl

theorem not_mem_keywords {texts : List String} (ht : ∀ k ∈ texts, IsKeyword k.toList) : .ofList (u ++ v) ∉ texts := by
  intro hm
  have := ht _ hm
  rw [String.toList_ofList] at this
  exact h.ne_keyword this rfl

theorem left_lower_of_mem {texts : List String} (ht : ∀ k ∈ texts, IsKeyword k.toList) (hm : .ofList u ∈ texts) :
    a.isLower = true := by
  have := ht _ hm
  rw [String.toList_ofList] at this
  exact h.left_lower this rfl

theorem keeps_objectName (W : List Word) :
    Keeps (objectName (W ++ (u ++ v) :: Z)) (objectName (W ++ u :: v :: Z)) := by
  have hk := isKeyword_commentObjects
  match W with
  | [] =>
    have hJ : objectName ((u ++ v) :: Z) = none := by
      cases Z with
      | nil => rfl
      | cons w Z => rw [objectName, if_neg (by simpa using h.not_mem_keywords hk)]
    have hS : objectName (u :: v :: Z) = none := by
      rw [objectName]
      split
      · rename_i hu
        rw [h.name?_right (isIdentChar_of_isLower (h.left_lower_of_mem hk (by simpa using hu)))]
        rfl
      · rfl
    exact .of_eq (hJ.trans hS.symm)
  | [k] =>
    simp only [List.singleton_append, objectName]
    split
    · exact h.keeps_name fun n hn p => not_approves_of_dotDot hn p
    · exact .of_eq rfl
  | k :: w :: W => exact .of_eq rfl

theorem objectName_right (ha : a.isLower = true) : objectName (v :: Z) = none := by
  have hk := isKeyword_commentObjects
  cases Z with
  | nil => rfl
  | cons w Z =>
    rw [objectName, if_neg]
    intro hv
    have := hk _ (by simpa using hv)
    rw [String.toList_ofList] at this
    exact h.right_ne_keyword this ha rfl

theorem extensionName_append (W : List Word) :
    extensionName (W ++ (u ++ v) :: Z) = extensionName (W ++ u :: v :: Z) := by
  have stop : ∀ t : Word, (∀ c ∈ t.getLast?, c = a) → (t = [] → a = '\x22') →
      (t ++ v).takeWhile isExtensionChar = t.takeWhile isExtensionChar := by
    intro t hl hnil
    refine takeWhile_append_of_stop fun ht c hc => ?_
    obtain rfl : b = c := by simpa [h.right] using hc
    by_cases ht0 : t = []
    · exact Bool.eq_false_iff.mpr fun hb =>
        h.apart (.inr (.inr (.inr (.inr (.inl ⟨hnil ht0, hb⟩)))))
    · have hm := hl _ (List.getLast?_eq_some_getLast ht0)
      exact h.not_extension (hm ▸ ht _ (List.getLast_mem ht0))
  cases W with
  | cons w W => rfl
  | nil =>
    obtain ⟨c, t, hu⟩ := List.exists_cons_of_ne_nil h.left_ne
    have hl := h.left
    have hne := h.left_ne
    have hh : (u ++ v).head? = u.head? := by rw [hu]; rfl
    rw [List.nil_append, List.nil_append, extensionName, extensionName, hh, List.tail_append_of_ne_nil hne]
    rw [hu, List.getLast?_cons, Option.some.injEq] at hl
    split
    · rename_i hq
      rw [hu] at hq ⊢
      rw [List.tail_cons, stop t]
      · intro d hd
        rw [← hl, Option.mem_def.mp hd, Option.getD_some]
      · intro e
        subst e
        rw [← hl]
        exact Option.some.inj hq
    · rw [stop u (fun c hc => Option.some.inj (hc.symm.trans h.left)) fun h0 => absurd h0 hne]

theorem extensionName_right (ha : isExtensionChar a = true) (hb : b ≠ '\x22') : extensionName (v :: Z) = none := by
  have hx := h.not_extension ha
  obtain ⟨t, rfl⟩ := h.right_eq
  simp [extensionName, hb, hx]

/-! ## Names with something behind them -/

theorem skipBlank_head (r : Word) (W : List Word) :
    (skipBlank r (W ++ (u ++ v) :: Z)).1.head? = (skipBlank r (W ++ u :: v :: Z)).1.head? := by
  obtain ⟨c, t, rfl⟩ := List.exists_cons_of_ne_nil h.left_ne
  cases r with
  | cons d r => rfl
  | nil => cases W <;> rfl

theorem dotColumn_append (r : Word) : dotColumn (r ++ v) Z = dotColumn r (v :: Z) := by
  obtain ⟨t, rfl⟩ := h.right_eq
  match r with
  | [] => rfl
  | [c] => by_cases hc : c = '.' <;> simp [dotColumn, skipBlank, hc]
  | c :: d :: r => by_cases hc : c = '.' <;> simp [dotColumn, skipBlank, hc]

theorem dotColumn_eq (w : Word) (W : List Word) :
    dotColumn w (W ++ (u ++ v) :: Z) = dotColumn w (W ++ u :: v :: Z) := by
  have step : ∀ (c : Char) (r : Word) (W : List Word),
      dotColumn (c :: r) (W ++ (u ++ v) :: Z) = dotColumn (c :: r) (W ++ u :: v :: Z) := by
    intro c r W
    by_cases hc : c = '.'
    · subst hc
      rw [dotColumn_dot, dotColumn_dot, h.skipBlank_head]
    · simp [dotColumn, skipBlank, hc]
  match w, W with
  | c :: r, W => exact step c r W
  | [], [] =>
    obtain ⟨c, t, hu⟩ := List.exists_cons_of_ne_nil h.left_ne
    have ha := h.dotColumn_append (Z := Z) u
    rw [hu] at ha ⊢
    exact ha
  | [], [] :: W => rfl
  | [], (c :: r) :: W => exact step c r W

theorem keeps_columnTable (W : List Word) :
    Keeps (columnTable (W ++ (u ++ v) :: Z)) (columnTable (W ++ u :: v :: Z)) := by
  have hm : Strict .commentOnColumn := fun n hn p => not_approves_of_dotDot hn p
  cases W with
  | cons w W =>
    apply Keeps.of_eq
    simp only [List.cons_append, columnTable, h.dotColumn_eq]
  | nil =>
    rw [List.nil_append, List.nil_append, columnTable, columnTable, longestName?_append]
    simp only [h.dotColumn_append]
    split
    · rename_i hu
      rw [List.all_eq_true] at hu
      cases hn : longestName? (dotColumn · Z) v with
      | none => exact .of_eq rfl
      | some n =>
        obtain ⟨hv, hvb⟩ := longestName?_head hn
        have hb : isNameChar b = true := hvb b h.right
        exact .of_hopeless (hm _ (h.dotDot (hu a h.left_mem) hb (hv.trans h.right))) _
    · exact .of_eq rfl

theorem columnTable_right (ha : isIdentChar a = true) : columnTable (v :: Z) = none := by
  obtain ⟨t, rfl⟩ := h.right_eq
  simp [columnTable, longestName?, (h.bare ha).1]

theorem keeps_calledName (W : List Word) :
    Keeps (calledName (W ++ (u ++ v) :: Z)) (calledName (W ++ u :: v :: Z)) := by
  have hm : Strict .commentOnFunction := fun n hn p => not_approves_of_dotDot hn p
  cases W with
  | cons w W =>
    apply Keeps.of_eq
    rw [List.cons_append, List.cons_append, calledName, calledName, h.skipBlank_head]
  | nil =>
    rw [List.nil_append, List.nil_append, calledName, calledName]
    by_cases hu : ∀ c ∈ u, isNameChar c = true
    · rw [rest_append_of_all hu, List.dropWhile_eq_nil_iff.mpr hu]
      obtain ⟨t, hv⟩ := h.right_eq
      cases hb : isNameChar b with
      | false =>
        rw [hv, List.dropWhile_cons_of_neg (by simp [hb]), ← hv]
        have hs : (skipBlank v Z).1.head? = (skipBlank [] (v :: Z)).1.head? := by rw [hv]; rfl
        rw [hs]
        split
        · exact h.keeps_name hm
        · exact .of_eq rfl
      | true =>
        have hd := h.dotDot (hu a h.left_mem) hb (h.nameRun_right_head hb)
        have hs : (skipBlank [] (v :: Z)).1.head? ≠ some '(' := by
          rw [skipBlank, h.right, (h.dots (hu a h.left_mem) hb).2]
          decide
        rw [if_neg hs]
        split
        · rw [name?, nameRun_append_of_all hu, if_neg (by simpa using hd.ne_nil)]
          exact .of_hopeless (hm _ hd) _
        · exact .of_eq rfl
    · obtain ⟨-, hr, hne⟩ := nameRun_append_of_not hu (v := v)
      obtain ⟨d, r, hd⟩ := List.exists_cons_of_ne_nil hne
      rw [hr, hd]
      have hs : (skipBlank (d :: r ++ v) Z).1.head? = (skipBlank (d :: r) (v :: Z)).1.head? := rfl
      rw [hs]
      split
      · exact h.keeps_name hm
      · exact .of_eq rfl

theorem calledName_right (ha : isIdentChar a = true) : calledName (v :: Z) = none := by
  rw [calledName, h.name?_right ha]
  split <;> rfl

end Seam

end MigrationLint.Sql
