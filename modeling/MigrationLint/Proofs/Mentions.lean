import MigrationLint.Proofs.Detection
import MigrationLint.Proofs.Ordinary
import MigrationLint.Proofs.References

/-!
# Texts with names in them

A text is laid out in names and what stands between them. The text between refers to no schema, ends no
statement and starts no clause `references`, so all that a check sees in the text are the names
(`Layout.schemas`, `Layout.ends`, `Layout.bare`).
-/

namespace MigrationLint.Sql

open Text

/-- A name in a text, with or without a schema, and the object it stands for. -/
structure Mention where
  context : String
  schema : Option Word
  name : Word
  schema_ident : ∀ s ∈ schema, isIdent s = true
  name_ident : isIdent name = true
  name_ne : name ≠ "references".toList
  bare : schema = none → name ∉ optionals

theorem ne_nil_of_isIdent {w : Word} (h : isIdent w = true) : w ≠ [] := by
  intro e
  subst e
  cases h

theorem isWordChar_of_isIdent {w : Word} (h : isIdent w = true) : ∀ c ∈ w, isWordChar c = true :=
  fun _ hc => isWordChar_of_isIdentChar (isIdentChar_of_mem h hc)

theorem lowers_blank {c : Char} (h : isBlank c = true) : Lowers c c :=
  ⟨(breaks_of_isBlank h).ne_sigma, lowerChar_of_isBlank h⟩

theorem lowers_name {c : Char} (h : isNameChar c = true) : Lowers c c := by
  have hlt := lt_of_isNameChar h
  refine ⟨ne_sigma_of_lt hlt, ?_⟩
  rw [lowerChar_ascii hlt]
  rcases isNameChar_iff.mp h with h | rfl
  · rw [toLower_of_isIdentChar h]
  · rfl

/-- The characters that may stand behind a name. -/
def Stops (t : List Char) : Prop := ∀ c ∈ t.head?, isBlank c = true ∨ c = '('

theorem Stops.nil : Stops [] := by simp [Stops]

theorem opens_stop {c : Char} (h : isBlank c = true ∨ c = '(') : Opens c := h.imp_right .inl

theorem not_name_stop {c : Char} (h : isBlank c = true ∨ c = '(') : isNameChar c = false ∧ isWordChar c = false := by
  have hw := (opens_stop h).not_word
  refine ⟨?_, hw⟩
  rw [Bool.eq_false_iff, ne_eq, isNameChar_iff]
  rintro (hi | rfl)
  · simp [isWordChar_of_isIdentChar hi] at hw
  · exact absurd h (by decide)

theorem Stops.halts {t : List Char} (h : Stops t) : Halts isNameChar t := fun c hc => (not_name_stop (h c hc)).1

theorem Stops.lower {t : List Char} (h : Stops t) : Stops (lower t) := by
  cases t with
  | nil => exact .nil
  | cons c t =>
    obtain ⟨hb, hc⟩ := (opens_stop (h c rfl)).breaks
    rw [lower_cons_break hb, hc]
    exact fun d hd => h d hd

namespace Mention

def text (m : Mention) : Word := m.schema.elim m.name (· ++ '.' :: m.name)

def tokens (m : Mention) : List Token := m.schema.elim [.word m.name] fun s => [.word s, .symbol '.', .word m.name]

variable (m : Mention)

theorem isNameChar_text : ∀ c ∈ m.text, isNameChar c = true := by
  have hname : ∀ c ∈ m.name, isNameChar c = true :=
    fun c hc => isNameChar_iff.mpr (.inl (isIdentChar_of_mem m.name_ident hc))
  unfold text
  cases hs : m.schema with
  | none => exact hname
  | some s =>
    have hschema : ∀ c ∈ s, isNameChar c = true :=
      fun c hc => isNameChar_iff.mpr (.inl (isIdentChar_of_mem (m.schema_ident s hs) hc))
    simp only [Option.elim_some, List.forall_mem_append, List.forall_mem_cons]
    exact ⟨hschema, by decide, hname⟩

theorem not_mark : ∀ c ∈ m.text, c ∉ ['-', '/', '\x27', '\x22', '$', ';'] := by
  intro c hc hm
  have : ∀ c ∈ ['-', '/', '\x27', '\x22', '$', ';'], isNameChar c = false := forall_of_all (by decide)
  have hn := m.isNameChar_text c hc
  rw [this c hm] at hn
  cases hn

theorem bare_text : Bare m.text := by
  apply bare_of_chars
  intro c hc hm
  apply m.not_mark c hc
  simp only [List.mem_cons, List.not_mem_nil, or_false] at hm ⊢
  tauto

theorem text_ne : m.text ≠ [] := by
  unfold text
  cases m.schema with
  | none => exact ne_nil_of_isIdent m.name_ident
  | some s => simp

theorem not_blank_text : ∀ c ∈ m.text, isBlank c = false :=
  fun c hc => isBlank_of_isNameChar (m.isNameChar_text c hc)

theorem tokens_text {x t : List Char} (hx : ∀ c ∈ x.getLast?, isWordChar c = false)
    (ht : ∀ c ∈ t.head?, isWordChar c = false) :
    Sql.tokens (x ++ (m.text ++ t)) = Sql.tokens x ++ (m.tokens ++ Sql.tokens t) := by
  have hname : Sql.tokens (m.name ++ t) = .word m.name :: Sql.tokens t := by
    rw [tokens_append fun _ _ c hc => .inr (ht c hc),
      tokens_word (ne_nil_of_isIdent m.name_ident) (isWordChar_of_isIdent m.name_ident)]
    rfl
  unfold text tokens
  cases hs : m.schema with
  | none =>
    rw [tokens_append fun a ha _ _ => .inl (hx a ha)]
    exact congrArg _ hname
  | some s =>
    simp only [Option.elim_some, List.append_assoc, List.cons_append, List.nil_append]
    rw [tokens_schema (m.schema_ident s hs) hx, hname]

theorem schemas_tokens {ts : List Token} (ht : ts.head? ≠ some (.symbol '.')) :
    schemas (m.tokens ++ ts) = (m.schema.map String.ofList).toList ++ schemas ts := by
  unfold tokens
  cases hs : m.schema with
  | none =>
    refine schemas_skip ?_
    intro a b l _ e
    subst e
    exact absurd rfl ht
  | some s => exact schemas_reference (m.schema_ident s hs) m.name_ident ts

theorem isName : IsName isNameChar m.text where
  ne_nil := m.text_ne
  chars := m.isNameChar_text
  not_optional := by
    intro hm
    have hdot : ∀ w ∈ optionals, '.' ∉ w := by decide
    cases hs : m.schema with
    | none => exact m.bare hs (by simpa [text, hs] using hm)
    | some s => exact hdot _ hm (by simp [text, hs])

theorem checkName_text (p : Policy) (context : String) :
    p.checkName context (.ofList m.text) =
      (p.checkSchema (m.schema.map .ofList)).toList ++ (p.checkPrefix context (some (.ofList m.name))).toList := by
  have hdot : ∀ w : Word, isIdent w = true → '.' ∉ (String.ofList w).toList := by
    intro w hw hm
    rw [String.toList_ofList] at hm
    exact absurd (isIdentChar_of_mem hw hm) (by decide)
  have hne : ∀ w : Word, isIdent w = true → String.ofList w ≠ "" := by
    intro w hw e
    exact ne_nil_of_isIdent hw (by simpa using congrArg String.toList e)
  unfold text
  cases hs : m.schema with
  | none => exact p.checkName_plain context (hdot _ m.name_ident) (hne _ m.name_ident)
  | some s =>
    have hschema := m.schema_ident s hs
    have htext : String.ofList (s ++ '.' :: m.name) = .ofList s ++ "." ++ .ofList m.name := by
      rw [← String.toList_inj]
      simp
    simp only [Option.elim_some, htext, Option.map_some]
    rw [p.checkName_dotted context (hdot s hschema) (hdot _ m.name_ident) (hne _ m.name_ident),
      filled?_toList (hne s hschema)]

theorem blocks_text_blank {t : List Char} (ht : ∀ c ∈ t.head?, isBlank c = true) :
    blocks (m.text ++ t) = m.text :: blocks t := by
  rw [blocks_append_of_blank fun _ _ c hc => .inr (ht c hc), blocks_word m.text_ne m.not_blank_text]
  rfl

/-- The words behind a name start with the rest of its own word, if there is one. -/
theorem blocks_text {t : List Char} (ht : Stops t) :
    ∃ x ws, Stops x ∧ blocks (m.text ++ t) = (m.text ++ x) :: ws ∧
      (x = [] ∧ blocks t = ws ∨ x.head? = some '(' ∧ blocks t = x :: ws) := by
  by_cases hblank : ∀ c ∈ t.head?, isBlank c = true
  · refine ⟨[], blocks t, .nil, ?_, .inl ⟨rfl, rfl⟩⟩
    rw [m.blocks_text_blank hblank, List.append_nil]
  · push Not at hblank
    obtain ⟨c, hc, hb⟩ := hblank
    have ha := List.getLast?_eq_some_getLast m.text_ne
    have hlast := m.not_blank_text _ (List.getLast_mem m.text_ne)
    obtain ⟨W, u, v, ws, hu, hv, -, hhead, hw⟩ :=
      blocks_append_of_not_blank ha hc hlast (Bool.eq_false_iff.mpr hb)
    obtain ⟨rfl, rfl⟩ : W = [] ∧ u = m.text := by
      rw [blocks_word m.text_ne m.not_blank_text] at hu
      cases W with
      | nil => exact ⟨rfl, (List.singleton_inj.mp hu).symm⟩
      | cons w W => simp at hu
    obtain rfl := (ht c hc).resolve_left hb
    refine ⟨v, ws, ?_, hw, .inr ⟨hhead, hv⟩⟩
    intro d hd
    exact .inr (Option.some.inj (hhead.symm.trans hd)).symm

end Mention

/-! ## Between the names -/

/-- A text that a check sees nothing in. -/
structure Harmless (s : List Char) : Prop where
  bare : Bare s
  no_dot : '.' ∉ s
  no_semicolon : ';' ∉ s
  no_references : .word "references".toList ∉ tokens (lower s)

/-- A blank or nothing ends the text. -/
def Spacious (s : List Char) : Prop := ∀ c ∈ s.getLast?, isBlank c = true

theorem Spacious.append {s t : List Char} (hs : Spacious s) (ht : Spacious t) : Spacious (s ++ t) := by
  intro c hc
  rw [List.getLast?_append] at hc
  cases hl : t.getLast? with
  | none => exact hs c (by simpa [hl] using hc)
  | some d => exact ht c (by simpa [hl] using hc)

theorem Spacious.lower_append {s : List Char} (h : Spacious s) (t : List Char) : lower (s ++ t) = lower s ++ lower t :=
  lower_append_of_last fun c hc => breaks_of_isBlank (h c hc)

theorem Spacious.lower {s : List Char} (h : Spacious s) : Spacious (lower s) := by
  rw [Spacious, getLast?_lower fun c hc => ⟨breaks_of_isBlank (h c hc), lowerChar_of_isBlank (h c hc)⟩]
  exact h

theorem Spacious.bare_append {s t : List Char} (h : Spacious s) (hs : Bare s) (ht : Bare t) : Bare (s ++ t) := by
  refine hs.append ht fun c hc => .inl ?_
  constructor
  · rintro rfl
    exact absurd (h _ hc) (by decide)
  · rintro rfl
    exact absurd (h _ hc) (by decide)

theorem Spacious.tokens_append {s : List Char} (h : Spacious s) (t : List Char) :
    tokens (s ++ t) = tokens s ++ tokens t :=
  Sql.tokens_append fun c hc _ _ => .inl (isWordChar_of_isBlank (h c hc))

theorem Spacious.blocks_append {s : List Char} (h : Spacious s) (t : List Char) :
    blocks (s ++ t) = blocks s ++ blocks t :=
  blocks_append_of_blank fun c hc _ _ => .inl (h c hc)

theorem Harmless.append {s t : List Char} (h : Spacious s) (hs : Harmless s) (ht : Harmless t) : Harmless (s ++ t) where
  bare := h.bare_append hs.bare ht.bare
  no_dot := by simp [hs.no_dot, ht.no_dot]
  no_semicolon := by simp [hs.no_semicolon, ht.no_semicolon]
  no_references := by
    rw [h.lower_append, h.lower.tokens_append, List.mem_append]
    exact not_or.mpr ⟨hs.no_references, ht.no_references⟩

theorem Harmless.no_symbol {s : List Char} (h : Harmless s) : .symbol '.' ∉ tokens (lower s) :=
  fun hm => h.no_dot ((mem_lower_iff (by decide) (by decide) (by decide)).mp (mem_of_symbol hm))

/-- A text with names in it, each between harmless texts. -/
inductive Layout : List Mention → List Char → Prop
  | rest {t : List Char} : Harmless t → Layout [] t
  | mention {s t : List Char} {m : Mention} {ms : List Mention} :
      Spacious s → Harmless s → Stops t → Layout ms t → Layout (m :: ms) (s ++ (m.text ++ t))

theorem lower_mention {s t : List Char} (hs : Spacious s) (m : Mention) (ht : Stops t) :
    lower (s ++ (m.text ++ t)) = lower s ++ (m.text ++ lower t) := by
  have htext : lower m.text = m.text := lower_eq_self fun c hc => lowers_name (m.isNameChar_text c hc)
  rw [hs.lower_append, lower_append_of_head fun c hc => (opens_stop (ht c hc)).breaks.1, htext]

namespace Layout

variable {ms : List Mention} {s : List Char}

theorem bare (h : Layout ms s) : Bare s ∧ ';' ∉ s := by
  induction h with
  | rest h => exact ⟨h.bare, h.no_semicolon⟩
  | @mention s t m ms hs hharm ht _ ih =>
    have hlast : ∀ c ∈ m.text.getLast?, c ≠ '-' ∧ c ≠ '/' := by
      intro c hc
      have := m.not_mark c (List.mem_of_getLast? hc)
      simp only [List.mem_cons, not_or] at this
      exact ⟨this.1, this.2.1⟩
    constructor
    · exact hs.bare_append hharm.bare (m.bare_text.append ih.1 fun c hc => .inl (hlast c hc))
    · have hname : ';' ∉ m.text := fun hm => m.not_mark ';' hm (by simp)
      simp [hharm.no_semicolon, hname, ih.2]

theorem tokens_lower {s t : List Char} (hs : Spacious s) (m : Mention) (ht : Stops t) :
    tokens (lower (s ++ (m.text ++ t))) = tokens (lower s) ++ (m.tokens ++ tokens (lower t)) := by
  rw [lower_mention hs m ht]
  apply m.tokens_text
  · exact fun c hc => isWordChar_of_isBlank (hs.lower c hc)
  · exact fun c hc => (not_name_stop (ht.lower c hc)).2

theorem schemas (h : Layout ms s) :
    schemas (tokens (lower s)) = ms.filterMap (fun m => m.schema.map String.ofList) ∧
      (tokens (lower s)).head? ≠ some (.symbol '.') := by
  induction h with
  | rest h =>
    exact ⟨schemas_of_no_dot h.no_symbol, fun hd => h.no_symbol (List.mem_of_mem_head? hd)⟩
  | @mention s t m ms hs hharm ht _ ih =>
    have hdot := hharm.no_symbol
    have hloose : Loose (tokens (lower s)) := fun w _ h => hdot (h.subset (by simp))
    have hhead : (m.tokens ++ tokens (lower t)).head? ≠ some (.symbol '.') := by
      unfold Mention.tokens
      cases m.schema <;> simp
    rw [tokens_lower hs m ht]
    constructor
    · rw [schemas_loose hloose hhead, schemas_of_no_dot hdot, m.schemas_tokens ih.2, ih.1, List.nil_append]
      cases hm : m.schema <;> simp [hm]
    · rw [List.head?_append]
      cases htok : (tokens (lower s)).head? with
      | none => exact hhead
      | some x =>
        intro e
        exact hdot (List.mem_of_mem_head? (htok.trans e))

theorem ends (h : Layout ms s) :
    ∀ w ∈ blocks (lower s), (tokens w).getLast? ≠ some (.word "references".toList) := by
  have harmless : ∀ {s}, Harmless s →
      ∀ w ∈ blocks (lower s), (tokens w).getLast? ≠ some (.word "references".toList) := by
    intro s h w hw hl
    apply h.no_references
    rw [tokens_blocks]
    exact List.mem_flatMap.mpr ⟨w, hw, List.mem_of_getLast? hl⟩
  induction h with
  | rest h => exact harmless h
  | @mention s t m ms hs hharm ht _ ih =>
    rw [lower_mention hs m ht, hs.lower.blocks_append]
    obtain ⟨x, ws, hx, htext, hrest⟩ := m.blocks_text ht.lower
    rw [htext, List.forall_mem_append, List.forall_mem_cons]
    have htokens : tokens (m.text ++ x) = m.tokens ++ tokens x :=
      m.tokens_text (x := []) (by simp) fun c hc => (not_name_stop (hx c hc)).2
    refine ⟨harmless hharm, ?_, ?_⟩
    · -- the word of a name ends as the rest behind the name does, if there is one
      rw [htokens]
      rcases hrest with ⟨rfl, -⟩ | ⟨hparen, hws⟩
      · have hname := m.name_ne
        unfold Mention.tokens
        cases m.schema <;> simpa [tokens] using hname
      · obtain ⟨y, rfl⟩ := List.head?_eq_some_iff.mp hparen
        have hne : tokens ('(' :: y) ≠ [] := by
          rw [tokens_symbol (by decide) (by decide)]
          exact List.cons_ne_nil _ _
        rw [List.getLast?_append_of_ne_nil _ hne]
        apply ih
        simp [hws]
    · rcases hrest with ⟨-, hws⟩ | ⟨-, hws⟩
      · exact hws ▸ ih
      · exact fun w hw => ih w (by simp [hws, hw])

end Layout

end MigrationLint.Sql
