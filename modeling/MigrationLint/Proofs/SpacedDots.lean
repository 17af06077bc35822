import MigrationLint.Proofs.ForeignKeys
import MigrationLint.Proofs.Symbols

/-!
# Blanks around the dot

The schema scan reads over blanks around a dot, but a name ends at the first blank. So what is checked of a table
or of the target of a foreign key is the text up to that blank, which can be the schema alone
(`checkStatement_spaced`).
-/

namespace MigrationLint.Sql

open Text

/-- A schema and a name of ASCII word characters, and the blanks around the dot between them. -/
structure SpacedName where
  schema : Word
  left : List Char
  right : List Char
  name : Word
  schema_ne_nil : schema ≠ []
  name_ne_nil : name ≠ []
  isTagChar_schema : ∀ c ∈ schema, isTagChar c = true
  isTagChar_name : ∀ c ∈ name, isTagChar c = true
  isBlank_left : ∀ b ∈ left, isBlank b = true
  isBlank_right : ∀ b ∈ right, isBlank b = true

namespace SpacedName

variable (x : SpacedName)

/-- The text from the dot on. -/
def rest : List Char := '.' :: (x.right ++ x.name)

def text : List Char := x.schema ++ (x.left ++ x.rest)

theorem isWordChar_schema : ∀ c ∈ x.schema, isWordChar c = true :=
  fun c hc => isWordChar_of_isTagChar (x.isTagChar_schema c hc)

theorem isWordChar_name : ∀ c ∈ x.name, isWordChar c = true :=
  fun c hc => isWordChar_of_isTagChar (x.isTagChar_name c hc)

/-! ## Schema references -/

theorem tokens_text : tokens x.text = [.word x.schema, .symbol '.', .word x.name] := by
  have hright : tokens (x.right ++ x.name) = [.word x.name] := by
    rw [tokens_append fun a ha _ _ => .inl (isWordChar_of_isBlank (x.isBlank_right a (List.mem_of_getLast? ha))),
      tokens_blanks x.isBlank_right, tokens_word x.name_ne_nil x.isWordChar_name]
    rfl
  have hleft : tokens (x.left ++ x.rest) = [.symbol '.', .word x.name] := by
    rw [tokens_append fun a ha _ _ => .inl (isWordChar_of_isBlank (x.isBlank_left a (List.mem_of_getLast? ha))),
      tokens_blanks x.isBlank_left, rest, tokens_symbol (by decide) (by decide), hright]
    rfl
  have hstop : ∀ b ∈ (x.left ++ x.rest).head?, isWordChar b = false := by
    intro b hb
    cases h : x.left with
    | nil =>
      rw [h] at hb
      obtain rfl := Option.some.inj hb
      decide
    | cons d g =>
      rw [h] at hb
      obtain rfl := Option.some.inj hb
      exact isWordChar_of_isBlank (x.isBlank_left d (by simp [h]))
  rw [text, tokens_append fun _ _ b hb => .inr (hstop b hb), tokens_word x.schema_ne_nil x.isWordChar_schema, hleft]
  rfl

/-- The schema is allowed, where the scan reads it as one. -/
def Scanned (p : Policy) : Prop :=
  isIdent x.schema = true → isIdent x.name = true → .ofList x.schema ∈ p.allowedSchemas

theorem forall_schemaRefs (p : Policy) {u : List Char} (hu : Spacious u) (hdot : '.' ∉ u) :
    (∀ schema ∈ schemaRefs (u ++ x.text), schema ∈ p.allowedSchemas) ↔ x.Scanned p := by
  have htokens : schemaRefs (u ++ x.text) = schemas [.word x.schema, .symbol '.', .word x.name] := by
    unfold schemaRefs
    rw [hu.tokens_append, x.tokens_text, schemas_append_of_no_dot (fun h => hdot (mem_of_symbol h)) (by simp)]
  unfold Scanned
  rw [htokens]
  by_cases h : isIdent x.schema = true ∧ isIdent x.name = true
  · rw [schemas_reference h.1 h.2]
    simp [h, schemas]
  · rw [schemas_skip, schemas_skip (by simp), schemas_of_no_dot (by simp)]
    · simp only [List.not_mem_nil, false_imp_iff, implies_true, true_iff]
      exact fun hs hn => absurd ⟨hs, hn⟩ h
    · intro a b l ha hl
      cases ha
      cases hl
      simpa using h

/-! ## Words -/

theorem halts_rest : Halts isBlank x.rest := halts_cons (by decide) _

theorem halts_text (t : List Char) : Halts isBlank (x.text ++ t) := by
  rw [text, List.append_assoc]
  apply halts_append x.schema_ne_nil
  intro c hc
  exact isBlank_of_isWordChar (x.isWordChar_schema c (List.mem_of_mem_head? hc))

theorem words_text :
    ∃ r rs, (r = x.name ∧ rs = [] ∨ r = [] ∧ rs = [x.name]) ∧ words x.rest = ('.' :: r) :: rs ∧
      words x.text = if x.left = [] then (x.schema ++ '.' :: r) :: rs else x.schema :: ('.' :: r) :: rs := by
  have hname : words x.name = [x.name] := words_single fun c hc => isBlank_of_isWordChar (x.isWordChar_name c hc)
  obtain ⟨r, rs, hr, hrest⟩ : ∃ r rs, (r = x.name ∧ rs = [] ∨ r = [] ∧ rs = [x.name]) ∧
      words x.rest = ('.' :: r) :: rs := by
    unfold rest
    rw [words_cons (by decide)]
    by_cases hright : x.right = []
    · rw [hright, List.nil_append, hname]
      exact ⟨x.name, [], .inl ⟨rfl, rfl⟩, rfl⟩
    · have hhalts : Halts isBlank x.name :=
        fun c hc => isBlank_of_isWordChar (x.isWordChar_name c (List.mem_of_mem_head? hc))
      rw [words_gap ⟨hright, x.isBlank_right⟩ hhalts, hname]
      exact ⟨[], [x.name], .inr ⟨rfl, rfl⟩, rfl⟩
  refine ⟨r, rs, hr, hrest, ?_⟩
  have hschema : ∀ c ∈ x.schema, isBlank c = false := fun c hc => isBlank_of_isWordChar (x.isWordChar_schema c hc)
  rw [text, words_word hschema]
  split
  · rename_i hleft
    rw [hleft, List.nil_append, hrest]
    rfl
  · rename_i hleft
    rw [words_gap ⟨hleft, x.isBlank_left⟩ x.halts_rest, hrest, List.modifyHead_cons, List.append_nil]

end SpacedName

/-! ## Foreign keys -/

section
variable {key : Word} (hk : IsKeyword key)
include hk

theorem endsWithWord_of_word {w : Word} (hw : ∀ c ∈ w, isWordChar c = true) :
    endsWithWord key [] w = true ↔ w = key := by
  rw [endsWithWord_iff]
  constructor
  · rintro ⟨t, rfl, ht⟩
    cases t using List.reverseRecOn with
    | nil => rfl
    | append_singleton t c =>
      have hc := ht c (by simp)
      rw [hw c (by simp)] at hc
      cases hc
  · rintro rfl
    exact ⟨[], rfl, by simp⟩

/-- A clause behind a name starts in the same word only if the whole word ends with the keyword. -/
theorem endsWithWord_behind_name {w : Word} (h : endsWithWord key [] w = true → w.dropWhile isNameChar = []) :
    endsWithWord key [] (w.dropWhile isNameChar) = false := by
  by_cases hne : w.dropWhile isNameChar = []
  · rw [hne]
    exact endsWithWord_nil hk []
  · rw [endsWithWord_rest hk hne, Bool.eq_false_iff]
    exact fun hends => hne (h hends)

end

theorem targets_keyword (w : Word) (ws : List Word) :
    targets ("references".toList :: w :: ws) =
      if nameRun w = [] then targets (w :: ws) else nameRun w :: targets (w.dropWhile isNameChar :: ws) := by
  have hends : endsWithWord "references".toList [] "references".toList = true := by decide
  rw [targets, clauses, hends]
  by_cases h : nameRun w = []
  · simp [h, targets]
  · simp [h, targets]

namespace SpacedName

variable (x : SpacedName)

theorem targets_rest : targets (words x.rest) = [] := by
  obtain ⟨r, rs, ⟨rfl, rfl⟩ | ⟨rfl, rfl⟩, hrest, -⟩ := x.words_text
  · rw [hrest]
    rfl
  · rw [hrest, targets_cons (by decide)]
    rfl

theorem nameRun_rest_ne_nil : nameRun x.rest ≠ [] := by simp [rest, nameRun, show isNameChar '.' = true by decide]

theorem endsWithWord_open : endsWithWord "references".toList [] (x.schema ++ ['.']) = false := by
  rw [Bool.eq_false_iff]
  intro h
  have := endsWithWord_last isKeyword_references (a := '.') (by simp) h
  exact absurd this (by decide)

theorem targets_text :
    targets (words x.text) = if x.left ≠ [] ∧ x.schema = "references".toList then [nameRun x.rest] else [] := by
  obtain ⟨r, rs, hr, hrest, htext⟩ := x.words_text
  rw [htext]
  by_cases hleft : x.left = []
  · rw [if_pos hleft, if_neg fun h => h.1 hleft]
    rcases hr with ⟨rfl, rfl⟩ | ⟨rfl, rfl⟩
    · rfl
    · rw [targets_cons x.endsWithWord_open]
      rfl
  · rw [if_neg hleft]
    by_cases hs : x.schema = "references".toList
    · have hrun := nameRun_of_words hrest
      have hnext : targets (('.' :: r).dropWhile isNameChar :: rs) = [] := by
        rcases hr with ⟨-, rfl⟩ | ⟨rfl, rfl⟩
        · rfl
        · rw [targets_cons (by decide)]
          rfl
      rw [if_pos ⟨hleft, hs⟩, hs, targets_keyword, hnext, hrun, if_neg x.nameRun_rest_ne_nil]
    · have hends : endsWithWord "references".toList [] x.schema = false := by
        rw [Bool.eq_false_iff, Ne, endsWithWord_of_word isKeyword_references x.isWordChar_schema]
        exact hs
      rw [if_neg fun h => hs h.2, targets_cons hends, ← hrest, x.targets_rest]

/-- Behind the name that is read there is no other clause. -/
theorem targets_behind {v : Word} {vs : List Word} (hw : words x.text = v :: vs) :
    targets (v.dropWhile isNameChar :: vs) = [] := by
  obtain ⟨r, rs, hr, hrest, htext⟩ := x.words_text
  rw [hw] at htext
  by_cases hleft : x.left = []
  · rw [if_pos hleft] at htext
    obtain ⟨rfl, rfl⟩ := List.cons.inj htext
    rcases hr with ⟨rfl, rfl⟩ | ⟨rfl, rfl⟩
    · rfl
    · rw [targets_cons (endsWithWord_behind_name isKeyword_references fun h => ?_)]
      · rfl
      · rw [x.endsWithWord_open] at h
        cases h
  · rw [if_neg hleft] at htext
    obtain ⟨rfl, rfl⟩ := List.cons.inj htext
    rw [targets_cons (endsWithWord_behind_name isKeyword_references fun h => ?_), ← hrest, x.targets_rest]
    rw [(endsWithWord_of_word isKeyword_references x.isWordChar_schema).mp h]
    rfl

theorem targets_references :
    targets ("references".toList :: words x.text) = if nameRun x.text = [] then [] else [nameRun x.text] := by
  obtain ⟨vs, hw⟩ := words_head x.text
  have hrun := nameRun_of_words hw
  have hbehind := x.targets_behind hw
  rw [hw, targets_keyword, hbehind, hrun, ← hw, x.targets_text]
  by_cases hne : nameRun x.text = []
  · have hnot : ¬ (x.left ≠ [] ∧ x.schema = "references".toList) := by
      rintro ⟨-, hs⟩
      simp [text, hs, nameRun, isNameChar] at hne
    rw [if_neg hnot]
  · rw [if_neg hne, if_neg hne]

/-! ## Detection -/

/-- Where the name of a table is read from: behind a word `only`, and else from the schema on. -/
def readFrom : List Char := if x.left ≠ [] ∧ x.schema = "only".toList then x.rest else x.text

/-- A phrase is not read: a dot joins its first word with the name, or it starts the word where the next should be. -/
theorem after?_text {k : String} {ks : List String} (hk : '.' ∉ k.toList)
    (h : x.left ≠ [] → x.schema = k.toList → ∃ k' ∈ ks.head?, k'.toList.head? ≠ some '.') :
    after? (k :: ks) (words x.text) = none := by
  obtain ⟨r, rs, -, -, htext⟩ := x.words_text
  rw [htext]
  by_cases hleft : x.left = []
  · rw [if_pos hleft]
    apply if_neg
    intro e
    exact hk (e ▸ by simp)
  · rw [if_neg hleft]
    by_cases hs : x.schema = k.toList
    · obtain ⟨k', hk', hdot⟩ := h hleft hs
      obtain ⟨ks, rfl⟩ := List.head?_eq_some_iff.mp hk'
      rw [after?, if_pos hs]
      apply if_neg
      intro e
      exact hdot (by rw [← e]; rfl)
    · exact if_neg hs

theorem readName_text : readName tablePhrases isNameChar (words x.text) = run? isNameChar x.readFrom := by
  have hrun : ∀ {s : List Char} {w : Word} {ws : List Word}, words s = w :: ws →
      run? isNameChar w = run? isNameChar s := by
    intro s w ws h
    have := nameRun_of_words h
    unfold nameRun at this
    unfold run?
    rw [this]
  unfold readFrom
  by_cases honly : x.left ≠ [] ∧ x.schema = "only".toList
  · obtain ⟨r, rs, -, hrest, htext⟩ := x.words_text
    have hname : run? isNameChar ('.' :: r) = some (nameRun x.rest) :=
      (hrun hrest).trans (run?_eq_some_iff.mpr ⟨x.nameRun_rest_ne_nil, rfl⟩)
    rw [if_pos honly, htext, if_neg honly.1, honly.2, ← hrun hrest, hname]
    have hread : readings tablePhrases ("only".toList :: ('.' :: r) :: rs) =
        [('.' :: r) :: rs, "only".toList :: ('.' :: r) :: rs] := rfl
    rw [readName, hread, List.findSome?_cons, List.head?_cons, Option.bind_some, hname]
  · obtain ⟨ws, hw⟩ := words_head x.text
    rw [if_neg honly, readName_plain, hw, List.head?_cons, Option.bind_some, hrun hw]
    · exact x.after?_text (by decide) fun _ _ => ⟨"not", rfl, by decide⟩
    · exact x.after?_text (by decide) fun _ _ => ⟨"exists", rfl, by decide⟩
    · exact x.after?_text (by decide) fun hleft hs => absurd ⟨hleft, hs⟩ honly

end SpacedName

/-- What a statement about a table is accepted for. -/
theorem checkStatement_table_iff {p : Policy} {s : List Char} {v : String} {ws : List Word}
    (hv : v ∈ ["create", "alter", "drop"]) (hw : words s = v.toList :: "table".toList :: ws) :
    checkStatement p s = [] ↔
      (∀ schema ∈ schemaRefs s, schema ∈ p.allowedSchemas) ∧
        (∃ n, readName tablePhrases isNameChar ws = some n ∧ p.Approves (.ofList n)) ∧
          ∀ target ∈ foreignKeys s, p.Approves target := by
  have hddl : isDdl s = true := by
    have hverb : v = "create" ∨ v = "alter" ∨ v = "drop" := by simpa using hv
    unfold isDdl
    rw [hw]
    rcases hverb with rfl | rfl | rfl <;> rfl
  have hdetect : detect s = (readName tablePhrases isNameChar ws).map fun n => .table (.ofList n) := by
    unfold detect
    rw [hw]
    exact detectWords_verb_table hv ws
  rw [checkStatement_ddl_eq_nil_iff hddl, schemaProblems_eq_nil_iff, formProblems_eq_nil_iff,
    foreignKeyProblems_eq_nil_iff, hdetect]
  simp [Statement.Accepted]

theorem words_table {v : String} (hv : IsKeyword v.toList) (s : List Char) :
    words (v.toList ++ ' ' :: ("table".toList ++ ' ' :: s)) = v.toList :: "table".toList :: words (trimStart s) := by
  have htable : IsKeyword "table".toList := by decide
  have hhalts : Halts isBlank ("table".toList ++ ' ' :: s) := halts_cons (c := 't') (by decide) _
  rw [words_keyword hv hhalts, words_keyword_trimStart htable]

/-! ## Statements with the name -/

/-- The start of a statement that adds a foreign key to the table. -/
def keyHead (t : List Char) : List Char := "alter table ".toList ++ (t ++ (" add foreign key".toList ++ " (b)".toList))

namespace SpacedName

variable (x : SpacedName)

def create : List Char := "create table ".toList ++ (x.text ++ " (id int)".toList)

def foreignKey (t : List Char) : List Char := keyHead t ++ (" references ".toList ++ (x.text ++ " (id)".toList))

theorem not_blank_last : ∀ c ∈ x.text.getLast?, isBlank c = false := by
  intro c hc
  have htext : x.text = (x.schema ++ (x.left ++ '.' :: x.right)) ++ x.name := by simp [text, rest]
  rw [htext, List.getLast?_append_of_ne_nil _ x.name_ne_nil] at hc
  exact isBlank_of_isWordChar (x.isWordChar_name c (List.mem_of_getLast? hc))

theorem words_create :
    words x.create = "create".toList :: "table".toList :: (words x.text ++ ["(id".toList, "int)".toList]) := by
  have hbehind : words "(id int)".toList = ["(id".toList, "int)".toList] := by decide
  have hparen : Halts isBlank "(id int)".toList := halts_cons (c := '(') (by decide) "id int)".toList
  have hgap : IsGap [' '] := by decide
  refine (words_table (v := "create") (by decide) (x.text ++ ([' '] ++ "(id int)".toList))).trans ?_
  rw [trimStart, (x.halts_text _).dropWhile_eq_self, words_append_gap x.not_blank_last hgap hparen, hbehind]

end SpacedName

/-- The parenthesis ends what the name of the altered table is read from. -/
theorem words_keyHead (t : List Char) {z : List Char} (hz : ∀ c ∈ z.head?, isBlank c = true) :
    ∃ Z, words (keyHead t ++ z) =
      "alter".toList :: "table".toList ::
        (words (trimStart (t ++ " add foreign key".toList)) ++ "(b)".toList :: Z) := by
  have hsplit : keyHead t ++ z =
      ("alter table ".toList ++ (t ++ " add foreign key".toList)) ++ ([' '] ++ ("(b)".toList ++ z)) := by
    unfold keyHead
    rw [show " (b)".toList = [' '] ++ "(b)".toList from rfl]
    simp only [List.append_assoc]
  have hverb : words ("alter table ".toList ++ (t ++ " add foreign key".toList)) =
      "alter".toList :: "table".toList :: words (trimStart (t ++ " add foreign key".toList)) :=
    words_table (v := "alter") (by decide) _
  obtain ⟨Z, hZ⟩ : ∃ Z, words ("(b)".toList ++ z) = "(b)".toList :: Z := by
    rw [words_word (forall_of_all (by decide))]
    cases z with
    | nil => exact ⟨[], rfl⟩
    | cons b z => exact ⟨words (trimStart z), by rw [words_blank_cons (hz b rfl)]; rfl⟩
  have hlast : ∀ a ∈ ("alter table ".toList ++ (t ++ " add foreign key".toList)).getLast?, isBlank a = false := by
    intro a ha
    rw [← List.append_assoc, List.getLast?_append_of_ne_nil _ (by decide)] at ha
    obtain rfl := Option.some.inj ha
    decide
  have hparen : Halts isBlank ("(b)".toList ++ z) := halts_cons (c := '(') (by decide) _
  refine ⟨Z, ?_⟩
  rw [hsplit, words_append_gap hlast (by decide) hparen, hverb, hZ]
  rfl

theorem checkStatement_keyHead_iff (p : Policy) (t : List Char) {z : List Char}
    (hz : ∀ c ∈ z.head?, isBlank c = true) :
    checkStatement p (keyHead t ++ z) = [] ↔
      (∀ schema ∈ schemaRefs (keyHead t ++ z), schema ∈ p.allowedSchemas) ∧
        (∃ n, readName tablePhrases isNameChar (words (trimStart (t ++ " add foreign key".toList))) = some n ∧
          p.Approves (.ofList n)) ∧
        ∀ target ∈ foreignKeys (keyHead t ++ z), p.Approves target := by
  obtain ⟨Z, hw⟩ := words_keyHead t hz
  rw [checkStatement_table_iff (v := "alter") (by simp) hw, readName_append (by decide) rfl]

namespace SpacedName

variable (x : SpacedName)

theorem readName_create :
    readName tablePhrases isNameChar (words x.text ++ ["(id".toList, "int)".toList]) = run? isNameChar x.readFrom := by
  rw [readName_append (by decide) rfl, readName_text]

/-- Behind the parenthesis there is nothing to check. -/
theorem create_parts :
    schemaRefs x.create = schemaRefs ("create table ".toList ++ x.text) ∧
      foreignKeys x.create = foreignKeys ("create table ".toList ++ x.text) := by
  have htext : x.create = (("create table ".toList ++ x.text) ++ [' ']) ++ '(' :: "id int)".toList := by
    unfold create
    rw [show " (id int)".toList = [' '] ++ '(' :: "id int)".toList from rfl]
    simp only [List.append_assoc]
  have hparen : IsSymbol '(' := by decide
  have hblank : ∀ b ∈ [' '], isBlank b = true := forall_of_all (by decide)
  have hrefs : schemaRefs "id int)".toList = [] := by decide
  have hkeys : foreignKeys "id int)".toList = [] := by decide
  rw [htext, schemaRefs_symbol hparen, schemaRefs_append_blanks hblank, hrefs, foreignKeys_symbol hparen,
    foreignKeys_append_blanks hblank, hkeys, List.append_nil, List.append_nil]
  exact ⟨rfl, rfl⟩

theorem foreignKeys_create :
    foreignKeys x.create =
      if x.left ≠ [] ∧ x.schema = "references".toList then [.ofList (nameRun x.rest)] else [] := by
  have hwords : words ("create table ".toList ++ x.text) = "create".toList :: "table".toList :: words x.text := by
    have := x.halts_text []
    rw [List.append_nil] at this
    refine (words_table (v := "create") (by decide) x.text).trans ?_
    rw [trimStart, this.dropWhile_eq_self]
  rw [x.create_parts.2, foreignKeys_of_words hwords, targets_cons (by decide), targets_cons (by decide), x.targets_text,
    apply_ite (List.map String.ofList)]
  rfl

theorem foreignKey_parts (t : List Char) :
    schemaRefs (x.foreignKey t) = schemaRefs (keyHead t) ++ schemaRefs ("references ".toList ++ x.text) ∧
      foreignKeys (x.foreignKey t) = foreignKeys (keyHead t) ++ foreignKeys ("references ".toList ++ x.text) := by
  obtain ⟨s, hs⟩ : ∃ s, keyHead t = s ++ ')' :: [] := by
    refine ⟨"alter table ".toList ++ (t ++ (" add foreign key".toList ++ " (b".toList)), ?_⟩
    unfold keyHead
    rw [show " (b)".toList = " (b".toList ++ [')'] from rfl]
    simp only [List.append_assoc]
  have htext : x.foreignKey t =
      (s ++ ')' :: ([' '] ++ (("references ".toList ++ x.text) ++ [' ']))) ++ '(' :: "id)".toList := by
    unfold foreignKey
    rw [hs, show " references ".toList = [' '] ++ "references ".toList from rfl,
      show " (id)".toList = [' '] ++ '(' :: "id)".toList from rfl]
    simp only [List.append_assoc, List.cons_append, List.nil_append]
  have hopen : IsSymbol '(' := by decide
  have hclose : IsSymbol ')' := by decide
  have hblank : ∀ b ∈ [' '], isBlank b = true := forall_of_all (by decide)
  have hhalts : Halts isBlank (("references ".toList ++ x.text) ++ [' ']) := halts_cons (c := 'r') (by decide) _
  have hrefs : schemaRefs "id)".toList = [] := by decide
  have hkeys : foreignKeys "id)".toList = [] := by decide
  constructor
  · rw [htext, hs, schemaRefs_symbol hopen, schemaRefs_symbol hclose, schemaRefs_symbol hclose,
      schemaRefs_blanks_append hblank, schemaRefs_append_blanks hblank, hrefs]
    simp [schemaRefs, tokens, schemas]
  · rw [htext, hs, foreignKeys_symbol hopen, foreignKeys_symbol hclose, foreignKeys_symbol hclose,
      foreignKeys_blanks_append hblank hhalts, foreignKeys_append_blanks hblank, hkeys]
    simp [foreignKeys, words, clauses]

theorem foreignKeys_references :
    foreignKeys ("references ".toList ++ x.text) = if nameRun x.text = [] then [] else [.ofList (nameRun x.text)] := by
  have hhalts := x.halts_text []
  rw [List.append_nil] at hhalts
  have hwords : words ("references ".toList ++ x.text) = "references".toList :: words x.text :=
    words_keyword isKeyword_references hhalts
  rw [foreignKeys_of_words hwords, x.targets_references, apply_ite (List.map String.ofList)]
  rfl

/-! ## Verdicts -/

theorem forall_mem_ite {α : Type} {c : Prop} [Decidable c] {a : α} {q : α → Prop} :
    (∀ b ∈ if c then [a] else [], q b) ↔ (c → q a) := by
  by_cases h : c
  · simp [h]
  · simp [h]

variable (p : Policy)

theorem checkStatement_create_iff :
    checkStatement p x.create = [] ↔
      x.Scanned p ∧ p.Approves (.ofList (nameRun x.readFrom)) ∧
        (x.left ≠ [] ∧ x.schema = "references".toList → p.Approves (.ofList (nameRun x.rest))) := by
  have hname : (∃ n, run? isNameChar x.readFrom = some n ∧ p.Approves (.ofList n)) ↔
      p.Approves (.ofList (nameRun x.readFrom)) := by
    constructor
    · rintro ⟨n, hn, hp⟩
      rwa [nameRun, (run?_eq_some_iff.mp hn).2]
    · exact fun hp => ⟨_, run?_eq_some_iff.mpr ⟨ne_nil_of_approves hp, rfl⟩, hp⟩
  have hspacious : Spacious "create table ".toList := by
    intro c hc
    obtain rfl := Option.some.inj hc
    decide
  rw [checkStatement_table_iff (v := "create") (by simp) x.words_create, x.readName_create, hname, x.create_parts.1,
    x.forall_schemaRefs p hspacious (by decide), x.foreignKeys_create, forall_mem_ite]

theorem checkStatement_foreignKey_iff (t : List Char) :
    checkStatement p (x.foreignKey t) = [] ↔
      checkStatement p (keyHead t) = [] ∧ x.Scanned p ∧
        (nameRun x.text ≠ [] → p.Approves (.ofList (nameRun x.text))) := by
  have hspacious : Spacious "references ".toList := by
    intro c hc
    obtain rfl := Option.some.inj hc
    decide
  have hhead := checkStatement_keyHead_iff p t (z := []) (by simp)
  rw [List.append_nil] at hhead
  have hblank : ∀ c ∈ (" references ".toList ++ (x.text ++ " (id)".toList)).head?, isBlank c = true := by
    intro c hc
    obtain rfl := Option.some.inj hc
    decide
  have hkey := checkStatement_keyHead_iff p t hblank
  have hparts := x.foreignKey_parts t
  unfold foreignKey at hparts ⊢
  rw [hkey, hhead, hparts.1, hparts.2, List.forall_mem_append, List.forall_mem_append,
    x.forall_schemaRefs p hspacious (by decide), x.foreignKeys_references, ← ite_not, forall_mem_ite]
  constructor
  · rintro ⟨⟨hrefs, hscanned⟩, hname, hkeys, htarget⟩
    exact ⟨⟨hrefs, hname, hkeys⟩, hscanned, htarget⟩
  · rintro ⟨⟨hrefs, hname, hkeys⟩, hscanned, htarget⟩
    exact ⟨⟨hrefs, hscanned⟩, hname, hkeys, htarget⟩

/-! ## Identifiers -/

/-- The schema is allowed and the name has the prefix. -/
def Meant : Prop := .ofList x.schema ∈ p.allowedSchemas ∧ p.requiredPrefix.toList <+: x.name

theorem not_dot_of_isIdent {w : Word} (h : isIdent w = true) : '.' ∉ w :=
  fun hm => absurd (isIdentChar_of_mem h hm) (by decide)

section
variable (hs : isIdent x.schema = true) (hn : isIdent x.name = true)

include hs in
theorem nameRun_text : nameRun x.text = x.schema ++ if x.left = [] then nameRun x.rest else [] := by
  have hname : ∀ c ∈ x.schema, isNameChar c = true := fun c hc => isNameChar_iff.mpr (.inl (isIdentChar_of_mem hs hc))
  rw [text, nameRun_append_of_all hname]
  by_cases hleft : x.left = []
  · rw [if_pos hleft, hleft, List.nil_append]
  · obtain ⟨b, g, hg⟩ := List.exists_cons_of_ne_nil hleft
    rw [if_neg hleft, hg, List.cons_append, nameRun_cons_of_not]
    exact isNameChar_of_isBlank (x.isBlank_left b (by simp [hg]))

include hn in
/-- What is approved as a name from the dot on has the prefix behind the dot. -/
theorem prefix_of_approves {u : Word} (hu : '.' ∉ u) (h : p.Approves (.ofList (u ++ nameRun x.rest))) :
    p.requiredPrefix.toList <+: x.name := by
  have hname : ∀ c ∈ x.name, isNameChar c = true := fun c hc => isNameChar_iff.mpr (.inl (isIdentChar_of_mem hn hc))
  have hrun : nameRun x.rest = '.' :: nameRun (x.right ++ x.name) := List.takeWhile_cons_of_pos (by decide)
  rw [hrun] at h
  cases hright : x.right with
  | nil =>
    rw [hright, List.nil_append, ← List.append_nil x.name, nameRun_append_of_all hname, nameRun, List.takeWhile_nil,
      List.append_nil, approves_dotted_iff hu (not_dot_of_isIdent hn) x.name_ne_nil] at h
    exact h.2
  | cons b g =>
    have hb : isNameChar b = false := isNameChar_of_isBlank (x.isBlank_right b (by simp [hright]))
    rw [hright, List.cons_append, nameRun_cons_of_not hb] at h
    exact absurd h (not_approves_open hu)

include hs in
theorem nameRun_text_of_gap (hleft : x.left ≠ []) : nameRun x.text = x.schema := by
  rw [x.nameRun_text hs, if_neg hleft, List.append_nil]

include hs hn

theorem scanned_iff : x.Scanned p ↔ .ofList x.schema ∈ p.allowedSchemas := by simp [Scanned, hs, hn]

theorem meant_of_create (h : x.left = [] ∨ x.schema ∈ ["only".toList, "references".toList])
    (hclean : checkStatement p x.create = []) : x.Meant p := by
  obtain ⟨hscanned, hname, htarget⟩ := (x.checkStatement_create_iff p).mp hclean
  refine ⟨(x.scanned_iff p hs hn).mp hscanned, ?_⟩
  by_cases hleft : x.left = []
  · rw [readFrom, if_neg fun hc => hc.1 hleft, x.nameRun_text hs, if_pos hleft] at hname
    exact x.prefix_of_approves p hn (not_dot_of_isIdent hs) hname
  · simp only [hleft, List.mem_cons, List.not_mem_nil, or_false, false_or] at h
    rcases h with honly | hrefs
    · rw [readFrom, if_pos ⟨hleft, honly⟩] at hname
      exact x.prefix_of_approves p hn (u := []) (by simp) hname
    · exact x.prefix_of_approves p hn (u := []) (by simp) (htarget ⟨hleft, hrefs⟩)

theorem create_of_gap (hleft : x.left ≠ []) (hother : x.schema ∉ ["only".toList, "references".toList]) :
    checkStatement p x.create = [] ↔ .ofList x.schema ∈ p.allowedSchemas ∧ p.requiredPrefix.toList <+: x.schema := by
  simp only [List.mem_cons, List.not_mem_nil, or_false, not_or] at hother
  rw [x.checkStatement_create_iff, x.scanned_iff p hs hn, readFrom, if_neg fun h => hother.1 h.2,
    x.nameRun_text_of_gap hs hleft, approves_plain_iff x.schema_ne_nil (not_dot_of_isIdent hs)]
  exact and_congr_right fun _ => and_iff_left fun h => absurd h.2 hother.2

theorem meant_of_foreignKey (hleft : x.left = []) {t : List Char} (hclean : checkStatement p (x.foreignKey t) = []) :
    x.Meant p := by
  obtain ⟨-, hscanned, hname⟩ := (x.checkStatement_foreignKey_iff p t).mp hclean
  refine ⟨(x.scanned_iff p hs hn).mp hscanned, ?_⟩
  rw [x.nameRun_text hs, if_pos hleft] at hname
  exact x.prefix_of_approves p hn (not_dot_of_isIdent hs) (hname (by simp [x.schema_ne_nil]))

theorem foreignKey_of_gap (hleft : x.left ≠ []) (t : List Char) :
    checkStatement p (x.foreignKey t) = [] ↔
      checkStatement p (keyHead t) = [] ∧ .ofList x.schema ∈ p.allowedSchemas ∧
        p.requiredPrefix.toList <+: x.schema := by
  rw [x.checkStatement_foreignKey_iff, x.scanned_iff p hs hn, x.nameRun_text_of_gap hs hleft,
    imp_iff_right x.schema_ne_nil, approves_plain_iff x.schema_ne_nil (not_dot_of_isIdent hs)]

end

end SpacedName

/-- **Blanks around the dot.** A table or the target of a foreign key is accepted for the name that is read up to
the first blank. Without a blank before the dot, and behind a word `only` or `references`, that is a name with the
dot in it, and what is accepted is what is meant. Otherwise it is the schema, and nothing is asked of the name. -/
theorem checkStatement_spaced (p : Policy) (x : SpacedName) :
    (checkStatement p x.create = [] ↔
      x.Scanned p ∧ p.Approves (.ofList (nameRun x.readFrom)) ∧
        (x.left ≠ [] ∧ x.schema = "references".toList → p.Approves (.ofList (nameRun x.rest)))) ∧
    (∀ t, checkStatement p (x.foreignKey t) = [] ↔
      checkStatement p (keyHead t) = [] ∧ x.Scanned p ∧
        (nameRun x.text ≠ [] → p.Approves (.ofList (nameRun x.text)))) ∧
    (isIdent x.schema = true → isIdent x.name = true →
      (x.left = [] ∨ x.schema ∈ ["only".toList, "references".toList] →
        checkStatement p x.create = [] → x.Meant p) ∧
      (x.left ≠ [] → x.schema ∉ ["only".toList, "references".toList] →
        (checkStatement p x.create = [] ↔
          .ofList x.schema ∈ p.allowedSchemas ∧ p.requiredPrefix.toList <+: x.schema)) ∧
      ∀ t,
        (x.left = [] → checkStatement p (x.foreignKey t) = [] → x.Meant p) ∧
        (x.left ≠ [] →
          (checkStatement p (x.foreignKey t) = [] ↔
            checkStatement p (keyHead t) = [] ∧ .ofList x.schema ∈ p.allowedSchemas ∧
              p.requiredPrefix.toList <+: x.schema))) :=
  ⟨x.checkStatement_create_iff p, x.checkStatement_foreignKey_iff p, fun hs hn =>
    ⟨x.meant_of_create p hs hn, x.create_of_gap p hs hn, fun t =>
      ⟨fun hleft => x.meant_of_foreignKey p hs hn hleft, fun hleft => x.foreignKey_of_gap p hs hn hleft t⟩⟩⟩

/-- A schema with the prefix in front of a name without it. -/
theorem checkStatement_spaced_gap :
    let p : Policy := ⟨"cb_", ["public", "cb_a"], ["auth"], []⟩
    ∃ x : SpacedName, x.text = "cb_a .\n widgets".toList ∧ ¬ x.Meant p ∧ checkStatement p x.create = [] ∧
      checkStatement p (x.foreignKey "public.cb_t".toList) = [] := by
  intro p
  let x : SpacedName :=
    { schema := "cb_a".toList, left := [' '], right := ['\n', ' '], name := "widgets".toList,
      schema_ne_nil := by decide, name_ne_nil := by decide, isTagChar_schema := forall_of_all (by decide),
      isTagChar_name := forall_of_all (by decide), isBlank_left := forall_of_all (by decide),
      isBlank_right := forall_of_all (by decide) }
  have hgap : x.left ≠ [] := List.cons_ne_nil _ _
  obtain ⟨-, hcreate, hkey⟩ := (checkStatement_spaced p x).2.2 (by decide) (by decide)
  refine ⟨x, by decide, ?_, (hcreate hgap (by decide)).mpr (by decide), ?_⟩
  · unfold SpacedName.Meant
    decide
  · exact ((hkey "public.cb_t".toList).2 hgap).mpr ⟨by decide +kernel, by decide⟩

/-- The name of the new table has no prefix, nor has the target of the foreign key. -/
theorem checkStatement_gap_unprefixed :
    let p : Policy := ⟨"cb_", ["public", "cb_a"], ["auth"], []⟩
    checkStatement p "create table cb_a . widgets (id int)".toList = [] ∧
      p.checkName "table" "cb_t" = [] ∧
      checkStatement p "alter table cb_t add foreign key (b) references cb_a . widgets (id)".toList = [] ∧
      ¬ p.requiredPrefix.toList <+: "widgets".toList := by
  decide +kernel

end MigrationLint.Sql
