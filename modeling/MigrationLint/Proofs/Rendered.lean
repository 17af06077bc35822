import MigrationLint.Proofs.WordTexts

/-!
# Statements are detected as they are written

A grammar says how each kind of statement is written: its words with gaps behind them, its names, and any text
that does not go on with the last name (`Rendered`). Detection gives back the kind and the names
(`detect_rendered`).
-/

namespace MigrationLint.Sql

open Text

/-! ## The grammar -/

def verbs : List String := ["create", "alter", "drop"]

def optional (phrase : List String) : List (List String) := [phrase, []]

/-- What may be said about existence. -/
def existence : List (List String) := [["if", "not", "exists"], ["if", "exists"], []]

/-- The words before the one name of a statement. -/
inductive Single : List String → (String → Statement) → Prop
  | table {v : String} {e o : List String} :
      v ∈ verbs → e ∈ existence → o ∈ optional ["only"] → Single (v :: "table" :: (e ++ o)) .table
  | view {v : String} {r m e : List String} :
      v ∈ verbs → r ∈ optional ["or", "replace"] → m ∈ optional ["materialized"] → e ∈ existence →
        Single (v :: (r ++ (m ++ "view" :: e))) .view
  | dropIndex {c e : List String} :
      c ∈ optional ["concurrently"] → e ∈ optional ["if", "exists"] →
        Single ("drop" :: "index" :: (c ++ e)) .dropIndex
  | sequence {v : String} {e : List String} :
      v ∈ verbs → e ∈ existence → Single (v :: "sequence" :: e) .sequence
  | function {v : String} {r e : List String} :
      v ∈ verbs → r ∈ optional ["or", "replace"] → e ∈ optional ["if", "exists"] →
        Single (v :: (r ++ "function" :: e)) .function
  | type {v : String} {e : List String} :
      v ∈ verbs → e ∈ optional ["if", "exists"] → Single (v :: "type" :: e) .type
  | commentOnObject {k : String} :
      k ∈ ["table", "view", "type", "sequence", "index", "trigger"] →
        Single ["comment", "on", k] (.commentOnObject k)

/-- The words before the first of two names, and those between the word `on` and the second. -/
inductive Joined : List String → List String → (String → String → Statement) → Prop
  | createIndex {u c e o : List String} :
      u ∈ optional ["unique"] → c ∈ optional ["concurrently"] → e ∈ optional ["if", "not", "exists"] →
        o ∈ optional ["only"] → Joined ("create" :: (u ++ "index" :: (c ++ e))) o .createIndex
  | dropTrigger {e : List String} :
      e ∈ optional ["if", "exists"] → Joined ("drop" :: "trigger" :: e) [] .dropTrigger

/-- The words before the first of two names that free text keeps apart. -/
inductive Apart : List String → (String → String → Statement) → Prop
  | createTrigger {r : List String} :
      r ∈ optional ["or", "replace"] → Apart ("create" :: (r ++ ["trigger"])) .createTrigger
  | policy {v : String} {e : List String} :
      v ∈ verbs → e ∈ optional ["if", "exists"] → Apart (v :: "policy" :: e) .policy

/-- The text has the word somewhere, with no word character before or behind it. -/
def HasWord (k s : List Char) : Prop :=
  ∃ x y, s = x ++ (k ++ y) ∧ (∀ c ∈ x.getLast?, isWordChar c = false) ∧
    ∀ c ∈ y.head?, isWordChar c = false

theorem HasWord.mem_tokens {k s : List Char} (h : HasWord k s) (hn : k ≠ []) (hk : ∀ c ∈ k, isWordChar c = true) :
    .word k ∈ tokens s := by
  obtain ⟨x, y, rfl, hx, hy⟩ := h
  rw [tokens_append fun c hc _ _ => .inl (hx c hc), tokens_append fun _ _ c hc => .inr (hy c hc), tokens_word hn hk]
  simp

/-- Free text before the word `on`. -/
structure Between (m : List Char) : Prop where
  starts : ∃ c ∈ m.head?, isBlank c = true
  ends : ∃ c ∈ m.getLast?, isBlank c = true
  no_on : ¬ HasWord on m

/-- The statements as they are written: the words of each kind with gaps behind them, its names, and any text
that does not go on with the last name. -/
inductive Rendered : Statement → List Char → Prop
  | single {ws : List String} {make : String → Statement} {s n t : List Char} :
      Single ws make → Spaced (ws.map String.toList) s → IsName isNameChar n → Halts isNameChar t →
        Rendered (make (.ofList n)) (s ++ (n ++ t))
  | joined {ws vs : List String} {make : String → String → Statement} {s n g u n' t : List Char} :
      Joined ws vs make → Spaced (ws.map String.toList) s → IsName isNameChar n → IsGap g →
        Spaced (("on" :: vs).map String.toList) u → IsName isNameChar n' → Halts isNameChar t →
        Rendered (make (.ofList n) (.ofList n')) (s ++ (n ++ (g ++ (u ++ (n' ++ t)))))
  | apart {ws : List String} {make : String → String → Statement} {s n m u n' t : List Char} :
      Apart ws make → Spaced (ws.map String.toList) s → IsName isNameChar n → Between m →
        Spaced (["on"].map String.toList) u → IsName isNameChar n' → Halts isNameChar t →
        Rendered (make (.ofList n) (.ofList n')) (s ++ (n ++ (m ++ (u ++ (n' ++ t)))))
  | extension {e : List String} {s n t : List Char} :
      e ∈ optional ["if", "not", "exists"] → Spaced (("create" :: "extension" :: e).map String.toList) s →
        IsName isExtensionChar n → Halts isExtensionChar t → Rendered (.createExtension (.ofList n)) (s ++ (n ++ t))
  | column {s n g g' c t : List Char} :
      Spaced (["comment", "on", "column"].map String.toList) s → IsName isNameChar n →
        (∀ b ∈ g, isBlank b = true) → (∀ b ∈ g', isBlank b = true) → c ≠ [] → (∀ d ∈ c, isIdentChar d = true) →
        Halts isNameChar t → (trimStart t).head? ≠ some '.' →
        Rendered (.commentOnColumn (.ofList n)) (s ++ (n ++ (g ++ '.' :: (g' ++ (c ++ t)))))
  | called {s n g t : List Char} :
      Spaced (["comment", "on", "function"].map String.toList) s → IsName isNameChar n →
        (∀ b ∈ g, isBlank b = true) →
        Rendered (.commentOnFunction (.ofList n)) (s ++ (n ++ (g ++ '(' :: t)))
  | grantRevoke {k : String} {t : List Char} :
      k ∈ ["grant", "revoke"] → Halts isWordChar t → Rendered .grantRevoke (k.toList ++ t)

/-! ## Spellings of the grammar -/

theorem mem_spellings_keyword {k : String} {choices : List String} {us : List Word} {ps : List Part}
    (hk : k ∈ choices) (hus : us ∈ spellings ps) : k.toList :: us ∈ spellings (.keyword choices :: ps) :=
  List.mem_flatMap.mpr ⟨k, hk, List.mem_map_of_mem hus⟩

theorem mem_spellings_maybe {ph : List String} {phrases : List (List String)} {us : List Word} {ps : List Part}
    (hph : ph ∈ phrases ++ [[]]) (hus : us ∈ spellings ps) :
    ph.map String.toList ++ us ∈ spellings (.maybe phrases :: ps) :=
  List.mem_flatMap.mpr ⟨ph, hph, List.mem_map_of_mem hus⟩

theorem mem_spellings_last {ph : List String} {phrases : List (List String)} (hph : ph ∈ phrases ++ [[]]) :
    ph.map String.toList ∈ spellings [.maybe phrases] := by
  have hnil : [] ∈ spellings [] := List.mem_singleton.mpr rfl
  simpa only [List.append_nil] using mem_spellings_maybe hph hnil

theorem Single.spelled {ws : List String} {make : String → Statement} (h : Single ws make) :
    (∃ head, ⟨head, oneName make⟩ ∈ forms ∧ ws.map String.toList ∈ spellings head) ∨
      ∃ k ∈ commentObjects, make = .commentOnObject k ∧ ws = ["comment", "on", k] := by
  cases h with
  | table hv he ho =>
    refine .inl ⟨tableHead, by simp [forms], ?_⟩
    rw [List.map_cons, List.map_cons, List.map_append]
    exact mem_spellings_keyword hv (mem_spellings_keyword (by simp) (mem_spellings_maybe he (mem_spellings_last ho)))
  | view hv hr hm he =>
    refine .inl ⟨viewHead, by simp [forms], ?_⟩
    rw [List.map_cons, List.map_append, List.map_append, List.map_cons]
    exact mem_spellings_keyword hv (mem_spellings_maybe hr (mem_spellings_maybe hm
      (mem_spellings_keyword (by simp) (mem_spellings_last he))))
  | dropIndex hc he =>
    refine .inl ⟨dropIndexHead, by simp [forms], ?_⟩
    rw [List.map_cons, List.map_cons, List.map_append]
    exact mem_spellings_keyword (by simp) (mem_spellings_keyword (by simp)
      (mem_spellings_maybe hc (mem_spellings_last he)))
  | sequence hv he =>
    exact .inl ⟨sequenceHead, by simp [forms],
      mem_spellings_keyword hv (mem_spellings_keyword (by simp) (mem_spellings_last he))⟩
  | function hv hr he =>
    refine .inl ⟨functionHead, by simp [forms], ?_⟩
    rw [List.map_cons, List.map_append, List.map_cons]
    exact mem_spellings_keyword hv (mem_spellings_maybe hr (mem_spellings_keyword (by simp) (mem_spellings_last he)))
  | type hv he =>
    exact .inl ⟨typeHead, by simp [forms],
      mem_spellings_keyword hv (mem_spellings_keyword (by simp) (mem_spellings_last he))⟩
  | commentOnObject hk => exact .inr ⟨_, hk, rfl, rfl⟩

theorem Joined.spelled {ws vs : List String} {make : String → String → Statement} (h : Joined ws vs make) :
    ∃ head between, ⟨head, nameOnName between make⟩ ∈ forms ∧ Clear between ∧ Lowercase between ∧
      ws.map String.toList ∈ spellings head ∧ vs.map String.toList ∈ spellings between := by
  cases h with
  | createIndex hu hc he ho =>
    refine ⟨createIndexHead, [only], by simp [forms], by decide, by decide, ?_, mem_spellings_last ho⟩
    rw [List.map_cons, List.map_append, List.map_cons, List.map_append]
    exact mem_spellings_keyword (by simp) (mem_spellings_maybe hu (mem_spellings_keyword (by simp)
      (mem_spellings_maybe hc (mem_spellings_last he))))
  | dropTrigger he =>
    exact ⟨dropTriggerHead, [], by simp [forms], by decide, by decide,
      mem_spellings_keyword (by simp) (mem_spellings_keyword (by simp) (mem_spellings_last he)),
      List.mem_singleton.mpr rfl⟩

theorem Apart.spelled {ws : List String} {make : String → String → Statement} (h : Apart ws make) :
    ∃ head, ⟨head, nameThenOn make⟩ ∈ forms ∧ ws.map String.toList ∈ spellings head := by
  cases h with
  | createTrigger hr =>
    refine ⟨createTriggerHead, by simp [forms], ?_⟩
    rw [List.map_cons, List.map_append]
    exact mem_spellings_keyword (by simp) (mem_spellings_maybe hr
      (mem_spellings_keyword (by simp) (List.mem_singleton.mpr rfl)))
  | policy hv he =>
    exact ⟨policyHead, by simp [forms],
      mem_spellings_keyword hv (mem_spellings_keyword (by simp) (mem_spellings_last he))⟩

theorem isKeyword_of_spelling {ps : List Part} (hps : Lowercase ps) {us : List Word} (hus : us ∈ spellings ps) :
    ∀ w ∈ us, IsKeyword w := by
  induction ps generalizing us with
  | nil =>
    obtain rfl := List.mem_singleton.mp hus
    simp
  | cons part ps ih =>
    obtain ⟨hk, hps'⟩ := hps.cons
    cases part with
    | keyword choices =>
      obtain ⟨k, hmem, hus⟩ := List.mem_flatMap.mp hus
      obtain ⟨us, hspelled, rfl⟩ := List.mem_map.mp hus
      exact List.forall_mem_cons.mpr ⟨hk k hmem, ih hps' hspelled⟩
    | «maybe» phrases =>
      obtain ⟨ph, hmem, hus⟩ := List.mem_flatMap.mp hus
      obtain ⟨us, hspelled, rfl⟩ := List.mem_map.mp hus
      refine List.forall_mem_append.mpr ⟨?_, ih hps' hspelled⟩
      intro w hw
      obtain ⟨k, hkw, rfl⟩ := List.mem_map.mp hw
      rcases List.mem_append.mp hmem with hph | hph
      · exact hk k (List.mem_flatten.mpr ⟨ph, hph, hkw⟩)
      · obtain rfl := List.mem_singleton.mp hph
        cases hkw

/-! ## Detection -/

theorem Single.detectWords {ws : List String} {make : String → Statement} (h : Single ws make) {n x : Word}
    (hn : IsName isNameChar n) (hx : Halts isNameChar x) (rest : List Word) :
    detectWords (ws.map String.toList ++ (n ++ x) :: rest) = some (make (.ofList n)) := by
  rcases h.spelled with ⟨head, hf, hus⟩ | ⟨k, hk, rfl, rfl⟩
  · exact detectWords_oneName hf hus hn hx rest
  · exact detectWords_object hk hn hx rest

theorem Single.isKeyword {ws : List String} {make : String → Statement} (h : Single ws make) :
    ∀ w ∈ ws.map String.toList, IsKeyword w := by
  rcases h.spelled with ⟨head, hf, hus⟩ | ⟨k, hk, rfl, rfl⟩
  · exact isKeyword_of_spelling (lowercase_forms _ hf) hus
  · have hobject := isKeyword_commentObjects k hk
    simpa using ⟨by decide, by decide, hobject⟩

theorem Between.words {m : List Char} (hm : Between m) :
    ∃ M, (∀ w ∈ M, endsWithWord on [] w = false) ∧
      ∀ y, Halts isBlank y → Text.words (m ++ y) = [] :: (M ++ Text.words y) := by
  obtain ⟨a, ha, hb⟩ := hm.ends
  have hne : m ≠ [] := List.ne_nil_of_mem (List.mem_of_getLast? ha)
  have hlast : Spacious m := by
    intro c hc
    obtain rfl := Option.some.inj (ha.symm.trans hc)
    exact hb
  obtain ⟨w, M, hw, hM⟩ := words_spacious hne hlast
  have hnil : w = [] := by
    rw [words_trimStart hm.starts] at hw
    exact (List.cons.inj hw).1.symm
  subst hnil
  refine ⟨M, fun w hmem => Bool.eq_false_iff.mpr fun he => hm.no_on ?_, hM⟩
  obtain ⟨u, v, rfl, -, hu, hv⟩ := infix_of_mem_words (s := m) (w := w) (by rw [hw]; simp [hmem])
  obtain ⟨t, rfl, ht⟩ := endsWithWord_iff.mp he
  refine ⟨u ++ t, v, by simp, ?_, fun c hc => isWordChar_of_isBlank (hv c hc)⟩
  intro c hc
  cases t with
  | nil => exact isWordChar_of_isBlank (hu c (by simpa using hc))
  | cons d t =>
    rw [List.getLast?_append_of_ne_nil _ (by simp)] at hc
    exact ht c hc

theorem detect_of_words {s : List Char} {ws : List Word} {st : Statement} (hw : words s = ws)
    (h : detectWords ws = some st) : detect s = some st := by
  rw [detect, hw]
  exact h

/-- **Detection.** What is detected in a statement as it is written are its kind and its names. -/
theorem detect_rendered {st : Statement} {s : List Char} (h : Rendered st s) : detect s = some st := by
  cases h with
  | @single ws make s n t hk hs hn ht =>
    obtain ⟨-, x, rest, hx, hwords⟩ := hs.words_name isBlank_of_isNameChar hk.isKeyword hn t
    exact detect_of_words hwords (hk.detectWords hn (ht.of_words hx) rest)
  | @joined ws vs make s n g u n' t hk hs hn hg hu hn' ht =>
    obtain ⟨head, between, hf, hclear, hlower, hus, hvs⟩ := hk.spelled
    have hkeys := isKeyword_of_spelling (lowercase_forms _ hf) hus
    have honKeys : ∀ w ∈ ("on" :: vs).map String.toList, IsKeyword w :=
      List.forall_mem_cons.mpr ⟨isKeyword_on, isKeyword_of_spelling hlower hvs⟩
    obtain ⟨hon, x, rest, hx, hlast⟩ := hu.words_name isBlank_of_isNameChar honKeys hn' t
    obtain ⟨-, y, ws', hy, hwords⟩ := hs.words_name isBlank_of_isNameChar hkeys hn (g ++ (u ++ (n' ++ t)))
    -- the gap ends the word of the first name
    rw [words_gap hg hon, hlast] at hy
    obtain ⟨rfl, rfl⟩ := List.cons.inj hy
    rw [List.append_nil] at hwords
    exact detect_of_words hwords (detectWords_nameOnName hus hn hn' (ht.of_words hx) hf hclear hvs rest)
  | @apart ws make s n m u n' t hk hs hn hm hu hn' ht =>
    obtain ⟨head, hf, hus⟩ := hk.spelled
    have hkeys := isKeyword_of_spelling (lowercase_forms _ hf) hus
    obtain ⟨M, hM, hmiddle⟩ := hm.words
    obtain ⟨hon, x, rest, hx, hlast⟩ := hu.words_name isBlank_of_isNameChar (by decide) hn' t
    obtain ⟨-, y, ws', hy, hwords⟩ := hs.words_name isBlank_of_isNameChar hkeys hn (m ++ (u ++ (n' ++ t)))
    rw [hmiddle _ hon, hlast] at hy
    obtain ⟨rfl, rfl⟩ := List.cons.inj hy
    rw [List.append_nil] at hwords
    exact detect_of_words hwords (detectWords_nameThenOn hus hn hn' (ht.of_words hx) hf hM rest)
  | @extension e s n t he hs hn ht =>
    have hus : ("create" :: "extension" :: e).map String.toList ∈ spellings createExtensionHead :=
      mem_spellings_keyword (by simp) (mem_spellings_keyword (by simp) (mem_spellings_last he))
    have hkeys := isKeyword_of_spelling (by decide) hus
    obtain ⟨-, x, rest, hx, hwords⟩ := hs.words_name isBlank_of_isExtensionChar hkeys hn t
    exact detect_of_words hwords (detectWords_extensionName hus hn (ht.of_words hx) rest)
  | @column s n g g' c t hs hn hg hg' hne hc ht hdot =>
    have hus : ["comment", "on", "column"].map String.toList ∈
        spellings (commentHead ++ [.keyword ["column"]]) := by
      decide
    obtain ⟨-, x, rest, hx, hwords⟩ :=
      hs.words_name isBlank_of_isNameChar (by decide) hn (g ++ '.' :: (g' ++ (c ++ t)))
    obtain ⟨hcolumn, hlongest⟩ := dotColumn_of_column hg hg' hne hc ht hdot hx
    have hlower : Halts Char.isLower (g ++ '.' :: (g' ++ (c ++ t))) :=
      halts_blanks (fun h => isBlank_of_isNameChar (isNameChar_of_isLower h)) hg (halts_cons (by decide) _)
    exact detect_of_words hwords (detectWords_column hus hn (hlower.of_words hx) hcolumn hlongest)
  | @called s n g t hs hn hg =>
    have hus : ["comment", "on", "function"].map String.toList ∈
        spellings (commentHead ++ [.keyword ["function"]]) := by
      decide
    obtain ⟨-, x, rest, hx, hwords⟩ := hs.words_name isBlank_of_isNameChar (by decide) hn (g ++ '(' :: t)
    have hparen : Halts isNameChar (g ++ '(' :: t) := halts_blanks isBlank_of_isNameChar hg (halts_cons (by decide) t)
    have hskip : (skipBlank x rest).1.head? = some '(' := by
      rw [head?_skipBlank hx, trimStart_append hg (halts_cons (by decide) t)]
      rfl
    exact detect_of_words hwords (detectWords_called hus hn (hparen.of_words hx) hskip)
  | @grantRevoke k t hk ht =>
    obtain ⟨rest, hw⟩ := words_head t
    refine detect_of_words ?_ (detectWords_grantOrRevoke hk (ht.of_words hw) rest)
    rw [words_word (isKeyword_grantOrRevoke k hk).not_blank, hw]
    rfl

/-- A trigger whose name ends with the letters of `on`, and free text with these letters in its words. -/
theorem detect_rendered_trigger :
    let s := "create or replace trigger\n t.on once a\n month  on v.w for each row".toList
    Rendered (.createTrigger "t.on" "v.w") s ∧ detect s = some (.createTrigger "t.on" "v.w") := by
  have hspace : IsGap [' '] := by decide
  have hline : IsGap ['\n', ' '] := by decide
  have hkind : Apart ["create", "or", "replace", "trigger"] .createTrigger :=
    .createTrigger (r := ["or", "replace"]) (by simp [optional])
  have hwords : Spaced (["create", "or", "replace", "trigger"].map String.toList)
      "create or replace trigger\n ".toList :=
    .cons hspace (.cons hspace (.cons hspace (.cons hline .nil)))
  have hon : Spaced (["on"].map String.toList) "on ".toList := .cons hspace .nil
  have hname : IsName isNameChar "t.on".toList := ⟨by decide, forall_of_all (by decide), by decide⟩
  have htable : IsName isNameChar "v.w".toList := ⟨by decide, forall_of_all (by decide), by decide⟩
  have hmiddle : Between " once a\n month  ".toList :=
    ⟨⟨' ', rfl, by decide⟩, ⟨' ', rfl, by decide⟩,
      fun h => absurd (h.mem_tokens (by decide) isKeyword_on.isWordChar) (by decide)⟩
  have hrest : Halts isNameChar " for each row".toList := halts_cons (by decide) _
  have h := Rendered.apart hkind hwords hname hmiddle hon htable hrest
  rw [String.ofList_toList, String.ofList_toList] at h
  exact ⟨h, detect_rendered h⟩

end MigrationLint.Sql
