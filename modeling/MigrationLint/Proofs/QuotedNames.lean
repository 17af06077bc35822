import MigrationLint.Proofs.Comments
import MigrationLint.Proofs.Ends
import MigrationLint.Proofs.References

/-!
# Quoted names of new objects

Stripping takes the quotes off a name, so its words are read as if they stood bare: an optional phrase at its
front is left out, and the name ends at the first character of another kind (`readName`). The verdict on a
quoted name is the verdict on what is read (`check_quoted_name`).
-/

namespace MigrationLint.Sql

open Text

/-! ## The words of the statement -/

theorem mem_of_mem_words {s w : List Char} (hw : w ∈ words s) {c : Char} (hc : c ∈ w) : c ∈ s := by
  induction s generalizing w with
  | nil =>
    obtain rfl := List.mem_singleton.mp hw
    cases hc
  | cons d s ih =>
    by_cases hd : isBlank d = true
    · rw [words_blank hd] at hw
      split at hw
      · exact List.mem_cons_of_mem d (ih hw hc)
      · rcases List.mem_cons.mp hw with rfl | hw
        · cases hc
        · exact List.mem_cons_of_mem d (ih hw hc)
    · rw [words_cons (by simpa using hd)] at hw
      obtain ⟨ws, hws⟩ := words_head s
      rw [hws] at hw ih
      rcases List.mem_cons.mp hw with rfl | hw
      · rcases List.mem_cons.mp hc with rfl | hc
        · exact List.mem_cons_self
        · exact List.mem_cons_of_mem d (ih List.mem_cons_self hc)
      · exact List.mem_cons_of_mem d (ih (List.mem_cons_of_mem _ hw) hc)

theorem not_mem_blocks {s : List Char} {c : Char} (h : c ∉ s) : ∀ w ∈ blocks s, c ∉ w :=
  fun _ hw hc => h (mem_of_mem_words (List.mem_of_mem_filter hw) hc)

/-- A word that no clause starts with adds no target in front of the others. -/
theorem targets_cons {w : Word} (h : endsWithWord "references".toList [] w = false) (ws : List Word) :
    targets (w :: ws) = targets ws := by
  cases ws with
  | nil => rfl
  | cons t ws => exact clauses_of_not h t ws

/-- A word without a name in front is the target of no clause before it. -/
theorem targets_append {v : Word} (hrun : nameRun v = []) (ws Z : List Word) :
    targets (ws ++ v :: Z) = targets ws ++ targets (v :: Z) := by
  have along : ∀ (ws : List Word) (before w : Word), clauses "references".toList before w (ws ++ v :: Z) =
      clauses "references".toList before w ws ++ clauses "references".toList [] v Z := by
    intro ws
    induction ws with
    | nil =>
      intro before w
      simp [clauses, hrun]
    | cons t ws ih =>
      intro before w
      rw [List.cons_append, clauses, clauses, ih, ih]
      split <;> rfl
  cases ws with
  | nil => rfl
  | cons w ws => exact along ws [] w

theorem targets_spec {ws : List Word} {t : Word} (h : t ∈ targets ws) : t ≠ [] ∧ ∃ w ∈ ws, nameRun w = t := by
  have along : ∀ (ws : List Word) (before w : Word), t ∈ clauses "references".toList before w ws →
      t ≠ [] ∧ ∃ w ∈ ws, nameRun w = t := by
    intro ws
    induction ws with
    | nil => intro _ _ h; cases h
    | cons v ws ih =>
      intro before w h
      have later : (t ≠ [] ∧ ∃ w ∈ ws, nameRun w = t) → t ≠ [] ∧ ∃ w ∈ v :: ws, nameRun w = t := by
        intro hx
        obtain ⟨hn, w, hw, e⟩ := hx
        exact ⟨hn, w, List.mem_cons_of_mem v hw, e⟩
      rw [clauses] at h
      split at h
      · rename_i hc
        rcases List.mem_cons.mp h with rfl | h
        · rw [Bool.and_eq_true] at hc
          exact ⟨by simpa using hc.2, v, List.mem_cons_self, rfl⟩
        · exact later (ih _ _ h)
      · exact later (ih _ _ h)
  cases ws with
  | nil => cases h
  | cons w ws =>
    obtain ⟨hn, v, hv, e⟩ := along ws [] w h
    exact ⟨hn, v, List.mem_cons_of_mem w hv, e⟩

theorem approves_plain_iff {p : Policy} {n : Word} (hn : n ≠ []) (hdot : '.' ∉ n) :
    p.Approves (.ofList n) ↔ p.requiredPrefix.toList <+: n := by
  have hne : String.ofList n ≠ "" := fun e => hn (by simpa using congrArg String.toList e)
  have hdot : '.' ∉ (String.ofList n).toList := by rwa [String.toList_ofList]
  rw [← p.checkName_eq_nil_iff "table", p.checkName_plain "table" hdot hne, Option.toList_eq_nil_iff,
    p.checkPrefix_eq_none_iff, String.toList_ofList]

theorem ofList_dotted (s n : Word) : String.ofList (s ++ '.' :: n) = .ofList s ++ "." ++ .ofList n := by
  rw [← String.toList_inj]
  simp

theorem approves_dotted_iff {p : Policy} {s n : Word} (hs : '.' ∉ s) (hn : '.' ∉ n) (hne : n ≠ []) :
    p.Approves (.ofList (s ++ '.' :: n)) ↔
      (s = [] ∨ .ofList s ∈ p.allowedSchemas) ∧ p.requiredPrefix.toList <+: n := by
  have hname : String.ofList n ≠ "" := fun e => hne (by simpa using congrArg String.toList e)
  have hschema : String.ofList s = "" ↔ s = [] := by
    rw [← String.toList_inj]
    simp
  rw [← p.checkName_eq_nil_iff "table", ofList_dotted, p.checkName_dotted "table" (by simpa) (by simpa) hname,
    List.append_eq_nil_iff, Option.toList_eq_nil_iff, Option.toList_eq_nil_iff, p.checkSchema_filled_eq_none_iff,
    p.checkPrefix_eq_none_iff, hschema, String.toList_ofList]

/-- A name that ends with its dot is none. -/
theorem not_approves_open {p : Policy} {s : Word} (hs : '.' ∉ s) : ¬ p.Approves (.ofList (s ++ ['.'])) := by
  have hparse : (QualifiedName.parse? (.ofList s ++ "." ++ .ofList [])).bind QualifiedName.name = none := by
    rw [QualifiedName.parse?_dotted (by simpa) (by simp)]
    rfl
  rw [← p.checkName_eq_nil_iff "table", ofList_dotted, p.checkName_unreadable "table" hparse]
  exact List.cons_ne_nil _ _

theorem ne_nil_of_approves {p : Policy} {n : Word} (h : p.Approves (.ofList n)) : n ≠ [] := by
  rintro rfl
  have hparse : (QualifiedName.parse? (.ofList [])).bind QualifiedName.name = none := rfl
  rw [← p.checkName_eq_nil_iff "table", p.checkName_unreadable "table" hparse] at h
  exact List.cons_ne_nil _ _ h

/-! ## Texts with a quoted name -/

def quotedTable (x : List Char) : List Char :=
  "CREATE TABLE ".toList ++ '\x22' :: (x ++ '\x22' :: " (id int);".toList)

def quotedExtension (x : List Char) : List Char := "CREATE EXTENSION ".toList ++ '\x22' :: (x ++ '\x22' :: [';'])

theorem double_of_not_mem {q : Char} {x : List Char} (h : q ∉ x) : double q x = x := by
  induction x with
  | nil => rfl
  | cons c x ih =>
    rw [List.mem_cons, not_or] at h
    rw [double_cons, if_neg (Ne.symm h.1), ih h.2]

/-- The quotes go, and the name is put into lowercase as if it stood alone. -/
theorem normal_quotes {p x q : List Char} (hp : ∀ c ∈ p, c ∉ ['-', '/', '\x27', '\x22', '$'])
    (hlast : ∀ c ∈ p.getLast?, Breaks c) (hx : '\x22' ∉ x) (hq : ∀ c ∈ q, c ∉ ['-', '/', '\x27', '\x22', '$'])
    (hhead : ∀ c ∈ q.head?, Breaks c) :
    normal (p ++ '\x22' :: (x ++ '\x22' :: q)) = lower p ++ (lower x ++ lower q) := by
  have htext : '\x22' :: (x ++ '\x22' :: q) = Segment.text ⟨.quoted, x, true⟩ ++ q := by
    simp [Segment.text, Region.opener, Region.closer, Region.encode, double_of_not_mem hx]
  have hquote : q.head? ≠ some '\x22' := fun e => hq _ (List.mem_of_mem_head? e) (by simp)
  have hname : strip ('\x22' :: (x ++ '\x22' :: q)) = x ++ q := by
    rw [htext, strip_quoted hquote, strip_bare (bare_of_chars hq)]
  rw [normal, strip_append_of hp, hname, lower_append_of_last hlast, lower_append_of_head hhead]

section
variable {x : List Char} (h : ∀ c ∈ x, c ∉ ['\x22', '.', ';'])
include h

theorem not_mem_lower_of_mark {c : Char} (hc : c ∈ ['\x22', '.', ';']) : c ∉ lower x := by
  have hmark : ∀ c ∈ ['\x22', '.', ';'], c.toNat < 128 ∧ c.isAlpha = false ∧ c ≠ '\x00' :=
    forall_of_all (by decide)
  obtain ⟨hlt, ha, h0⟩ := hmark c hc
  rw [mem_lower_iff hlt ha h0]
  exact fun hm => h c hm hc

theorem normal_quotedTable :
    normal (quotedTable x) = "create table ".toList ++ lower x ++ " (id int)".toList ++ ';' :: [] := by
  have hlast : ∀ c ∈ "CREATE TABLE ".toList.getLast?, Breaks c := by
    intro c hc
    cases hc
    exact breaks_of_isBlank rfl
  have hhead : ∀ c ∈ " (id int);".toList.head?, Breaks c := by
    intro c hc
    cases hc
    exact breaks_of_isBlank rfl
  refine (normal_quotes (forall_of_all (by decide)) hlast (fun hm => h _ hm (by simp)) (forall_of_all (by decide))
    hhead).trans ?_
  simp only [List.append_assoc]
  rfl

theorem normal_quotedExtension :
    normal (quotedExtension x) = "create extension ".toList ++ lower x ++ ';' :: [] := by
  have hlast : ∀ c ∈ "CREATE EXTENSION ".toList.getLast?, Breaks c := by
    intro c hc
    cases hc
    exact breaks_of_isBlank rfl
  have hhead : ∀ c ∈ [';'].head?, Breaks c := by
    intro c hc
    cases hc
    exact breaks_semicolon
  refine (normal_quotes (forall_of_all (by decide)) hlast (fun hm => h _ hm (by simp)) (forall_of_all (by decide))
    hhead).trans ?_
  simp only [List.append_assoc]
  rfl

end

/-- Keywords in front of a name, each with a blank behind it, are words of their own. -/
theorem blocks_keyword {k : List Char} (hn : k ≠ []) (hk : ∀ c ∈ k, isBlank c = false) (s : List Char) :
    blocks (k ++ ' ' :: s) = k :: blocks s := by
  rw [blocks_append_blank (by decide), blocks_word hn hk]
  rfl

theorem blocks_table (name : List Char) :
    blocks ("create table ".toList ++ name ++ " (id int)".toList) =
      "create".toList :: "table".toList :: (blocks name ++ ["(id".toList, "int)".toList]) := by
  have htext : "create table ".toList ++ name ++ " (id int)".toList =
      "create".toList ++ ' ' :: ("table".toList ++ ' ' :: (name ++ ' ' :: "(id int)".toList)) := by
    simp
  have hwords : blocks "(id int)".toList = ["(id".toList, "int)".toList] := by decide
  rw [htext, blocks_keyword (by decide) (forall_of_all (by decide)),
    blocks_keyword (by decide) (forall_of_all (by decide)), blocks_append_blank (by decide), hwords]

theorem blocks_extension (name : List Char) :
    blocks ("create extension ".toList ++ name) = "create".toList :: "extension".toList :: blocks name := by
  have htext : "create extension ".toList ++ name = "create".toList ++ ' ' :: ("extension".toList ++ ' ' :: name) := by
    simp
  rw [htext, blocks_keyword (by decide) (forall_of_all (by decide)),
    blocks_keyword (by decide) (forall_of_all (by decide))]

/-! ## Verdicts -/

theorem not_flagged_single {p : Policy} {s a : List Char} (ha : ';' ∉ a) (hs : normal s = a ++ ';' :: []) :
    ¬ Flagged p s ↔ Clean p (blocks a) := by
  have hcut : ∀ c ∈ a, (c == ';') = false := by
    intro c hc
    rw [beq_eq_false_iff_ne]
    exact fun e => ha (e ▸ hc)
  rw [not_flagged_iff, hs, pieces_append rfl, pieces_of_none hcut, pieces_of_none (by simp)]
  simp [blocks_nil, clean_nil]

theorem clean_create_iff {p : Policy} {ws : List Word} (hdot : ∀ w ∈ ws, '.' ∉ w) :
    Clean p ("create".toList :: ws) ↔
      (∃ st, detectWords ("create".toList :: ws) = some st ∧ st.Accepted p) ∧
        ∀ t ∈ targets ws, p.requiredPrefix.toList <+: t := by
  have hschemas : schemas (("create".toList :: ws).flatMap tokens) = [] := by
    refine schemas_of_words ?_
    rw [List.forall_mem_cons]
    exact ⟨by decide, hdot⟩
  have htargets : targets ("create".toList :: ws) = targets ws := targets_cons (by decide) ws
  have happroves : ∀ t ∈ targets ws, (p.Approves (.ofList t) ↔ p.requiredPrefix.toList <+: t) := by
    intro t ht
    obtain ⟨hn, w, hw, rfl⟩ := targets_spec ht
    exact approves_plain_iff hn fun hm => hdot w hw ((List.takeWhile_prefix _).subset hm)
  rw [Clean, hschemas, htargets, imp_iff_right (isDdlWords_create ws), forall₂_congr happroves]
  simp

section
variable {x : List Char} (h : ∀ c ∈ x, c ∉ ['\x22', '.', ';'])
include h

theorem not_flagged_quotedTable_iff (p : Policy) :
    ¬ Flagged p (quotedTable x) ↔
      (∃ n, readName tablePhrases isNameChar (blocks (lower x)) = some n ∧ p.requiredPrefix.toList <+: n) ∧
        ∀ t ∈ targets (blocks (lower x)), p.requiredPrefix.toList <+: t := by
  have hdot : ∀ w ∈ blocks (lower x), '.' ∉ w := not_mem_blocks (not_mem_lower_of_mark h (by simp))
  have hcut : ';' ∉ "create table ".toList ++ lower x ++ " (id int)".toList := by
    rw [List.mem_append, List.mem_append]
    rintro ((hm | hm) | hm)
    · exact absurd hm (by decide)
    · exact not_mem_lower_of_mark h (by simp) hm
    · exact absurd hm (by decide)
  have hwords : ∀ w ∈ "table".toList :: (blocks (lower x) ++ ["(id".toList, "int)".toList]), '.' ∉ w := by
    rw [List.forall_mem_cons, List.forall_mem_append]
    exact ⟨by decide, hdot, by decide⟩
  have hread : readName tablePhrases isNameChar (blocks (lower x) ++ ["(id".toList, "int)".toList]) =
      readName tablePhrases isNameChar (blocks (lower x)) := readName_append (by decide) rfl _ _
  have htail : targets ["(id".toList, "int)".toList] = [] := by decide
  have haccepted : (∃ st, (readName tablePhrases isNameChar (blocks (lower x))).map
        (fun n => Statement.table (.ofList n)) = some st ∧ st.Accepted p) ↔
      ∃ n, readName tablePhrases isNameChar (blocks (lower x)) = some n ∧ p.requiredPrefix.toList <+: n := by
    cases hn : readName tablePhrases isNameChar (blocks (lower x)) with
    | none => simp
    | some n =>
      obtain ⟨w, hw, hne, hrun⟩ := readName_spec hn
      have hplain : '.' ∉ n := fun hm => hdot w hw ((List.takeWhile_prefix _).subset (hrun ▸ hm))
      simp [Statement.Accepted, approves_plain_iff hne hplain]
  rw [not_flagged_single hcut (normal_quotedTable h), blocks_table, clean_create_iff hwords,
    detectWords_create_table, hread, haccepted, targets_cons (by decide), targets_append rfl, htail,
    List.append_nil]

theorem not_flagged_quotedExtension_iff (p : Policy) :
    ¬ Flagged p (quotedExtension x) ↔
      (∃ n, readName extensionPhrases isExtensionChar (blocks (lower x)) = some n ∧
        .ofList n ∈ p.allowedExtensions) ∧
        ∀ t ∈ targets (blocks (lower x)), p.requiredPrefix.toList <+: t := by
  have hdot : ∀ w ∈ blocks (lower x), '.' ∉ w := not_mem_blocks (not_mem_lower_of_mark h (by simp))
  have hquote : ∀ w ∈ blocks (lower x), '\x22' ∉ w := not_mem_blocks (not_mem_lower_of_mark h (by simp))
  have hcut : ';' ∉ "create extension ".toList ++ lower x := by
    rw [List.mem_append]
    rintro (hm | hm)
    · exact absurd hm (by decide)
    · exact not_mem_lower_of_mark h (by simp) hm
  have hwords : ∀ w ∈ "extension".toList :: blocks (lower x), '.' ∉ w := by
    rw [List.forall_mem_cons]
    exact ⟨by decide, hdot⟩
  rw [not_flagged_single hcut (normal_quotedExtension h), blocks_extension, clean_create_iff hwords,
    detectWords_create_extension hquote, targets_cons (by decide)]
  simp [Statement.Accepted]

end

/-! ## Which names are judged as they are -/

/-- A table of this name passes only under a prefix of the name. -/
def TableJudged (x : List Char) : Prop :=
  ∀ p : Policy, p.requiredPrefix ≠ "" → ¬ Flagged p (quotedTable x) → p.requiredPrefix.toList <+: lower x

/-- An extension of this name passes only if the name is allowed. -/
def ExtensionJudged (x : List Char) : Prop :=
  ∀ p : Policy, p.requiredPrefix ≠ "" → ¬ Flagged p (quotedExtension x) → .ofList (lower x) ∈ p.allowedExtensions

theorem blocks_prefix {s : List Char} (hs : ∀ c ∈ s.head?, isBlank c = false) : ∀ w ∈ (blocks s).head?, w <+: s := by
  obtain ⟨ws, hws⟩ := words_head s
  cases s with
  | nil =>
    intro w hw
    cases hw
  | cons c s =>
    have hc : isBlank c = false := hs c rfl
    intro w hw
    rw [blocks, hws, List.takeWhile_cons_of_pos (by simp [hc]), List.filter_cons_of_pos (by simp)] at hw
    cases hw
    rw [← List.takeWhile_cons_of_pos (by simp [hc])]
    exact List.takeWhile_prefix _

section
variable {x : List Char} (h : ∀ c ∈ x, c ∉ ['\x22', '.', ';'])
include h

theorem tableJudged_iff (ht : targets (blocks (lower x)) = []) :
    TableJudged x ↔ ∀ n, readName tablePhrases isNameChar (blocks (lower x)) = some n → n <+: lower x := by
  constructor
  · intro hx n hn
    -- a policy that asks for the whole name that is read lets the table pass
    obtain ⟨-, -, hne, -⟩ := readName_spec hn
    have hpass : ¬ Flagged ⟨.ofList n, [], [], []⟩ (quotedTable x) := by
      rw [not_flagged_quotedTable_iff h]
      simp [hn, ht]
    simpa using hx ⟨.ofList n, [], [], []⟩ (fun e => hne (by simpa using congrArg String.toList e)) hpass
  · intro hx p _ hpass
    obtain ⟨⟨n, hn, hp⟩, -⟩ := (not_flagged_quotedTable_iff h p).mp hpass
    exact hp.trans (hx n hn)

theorem tableJudged_of_head (hs : ∀ c ∈ (lower x).head?, isBlank c = false)
    (hw : ∀ w ∈ (blocks (lower x)).head?, w ≠ "if".toList ∧ w ≠ "only".toList) : TableJudged x := by
  intro p _ hpass
  obtain ⟨⟨n, hn, hp⟩, -⟩ := (not_flagged_quotedTable_iff h p).mp hpass
  cases hb : blocks (lower x) with
  | nil =>
    rw [hb] at hn
    cases hn
  | cons w ws =>
    have hfront := blocks_prefix hs w (by rw [hb]; rfl)
    rw [hb] at hn hw
    obtain ⟨hif, honly⟩ := hw w rfl
    rw [readName_head hif honly, run?_eq_some_iff] at hn
    exact hp.trans ((hn.2 ▸ List.takeWhile_prefix _).trans hfront)

theorem extensionJudged_of_chars (hx : ∀ c ∈ lower x, isExtensionChar c = true) : ExtensionJudged x := by
  intro p _ hpass
  obtain ⟨⟨n, hn, hp⟩, -⟩ := (not_flagged_quotedExtension_iff h p).mp hpass
  by_cases hne : lower x = []
  · rw [hne] at hn
    cases hn
  · have hword : blocks (lower x) = [lower x] := blocks_word hne fun c hc => isBlank_of_isExtensionChar (hx c hc)
    rw [hword, readName_word (by decide) hne hx] at hn
    obtain rfl := Option.some.inj hn
    exact hp

theorem extensionJudged_iff (ht : targets (blocks (lower x)) = []) :
    ExtensionJudged x ↔ readName extensionPhrases isExtensionChar (blocks (lower x)) = none ∨
      ∀ c ∈ lower x, isExtensionChar c = true := by
  constructor
  · intro hx
    cases hn : readName extensionPhrases isExtensionChar (blocks (lower x)) with
    | none => exact .inl rfl
    | some n =>
      -- a policy that allows only what is read lets it pass, so this is the name, and it is a run
      right
      have hpass : ¬ Flagged ⟨"a", [], [], [.ofList n]⟩ (quotedExtension x) := by
        rw [not_flagged_quotedExtension_iff h]
        simp [hn, ht]
      have hvalid : "a" ≠ "" := by decide
      have hname : lower x = n :=
        String.ofList_injective (List.mem_singleton.mp (hx ⟨"a", [], [], [.ofList n]⟩ hvalid hpass))
      obtain ⟨w, -, -, hrun⟩ := readName_spec hn
      rw [hname, ← hrun]
      exact fun c hc => List.mem_takeWhile_imp hc
  · rintro (hn | hx)
    · intro p _ hpass
      obtain ⟨⟨n, hn', -⟩, -⟩ := (not_flagged_quotedExtension_iff h p).mp hpass
      cases hn.symm.trans hn'
    · exact extensionJudged_of_chars h hx

/-- **Quoted names.** A text with a quoted name passes exactly if the policy approves what is read from the
words of the name. A table is judged by its own name where no blank and no optional phrase stands at the front
of it. An extension is judged by its own name where that has only characters of an extension, and otherwise
the policy that allows what is read lets it pass. -/
theorem check_quoted_name :
    (∀ p, ¬ Flagged p (quotedTable x) ↔
      (∃ n, readName tablePhrases isNameChar (blocks (lower x)) = some n ∧ p.requiredPrefix.toList <+: n) ∧
        ∀ t ∈ targets (blocks (lower x)), p.requiredPrefix.toList <+: t) ∧
    (∀ p, ¬ Flagged p (quotedExtension x) ↔
      (∃ n, readName extensionPhrases isExtensionChar (blocks (lower x)) = some n ∧
        .ofList n ∈ p.allowedExtensions) ∧
        ∀ t ∈ targets (blocks (lower x)), p.requiredPrefix.toList <+: t) ∧
    (targets (blocks (lower x)) = [] →
      (TableJudged x ↔ ∀ n, readName tablePhrases isNameChar (blocks (lower x)) = some n → n <+: lower x) ∧
      (ExtensionJudged x ↔ readName extensionPhrases isExtensionChar (blocks (lower x)) = none ∨
        ∀ c ∈ lower x, isExtensionChar c = true)) ∧
    ((∀ c ∈ (lower x).head?, isBlank c = false) →
      (∀ w ∈ (blocks (lower x)).head?, w ≠ "if".toList ∧ w ≠ "only".toList) → TableJudged x) ∧
    ((∀ c ∈ lower x, isExtensionChar c = true) → ExtensionJudged x) :=
  ⟨not_flagged_quotedTable_iff h, not_flagged_quotedExtension_iff h,
    fun ht => ⟨tableJudged_iff h ht, extensionJudged_iff h ht⟩, tableJudged_of_head h, extensionJudged_of_chars h⟩

end

/-- The words `only` and `x` are part of the names, and the verdict leaves them out. -/
theorem check_quoted_name_only :
    let x := "only cb_a".toList
    let y := "pgcrypto x".toList
    (∀ c ∈ x, c ∉ ['\x22', '.', ';']) ∧ ¬ TableJudged x ∧
      (∀ c ∈ y, c ∉ ['\x22', '.', ';']) ∧ ¬ ExtensionJudged y := by
  have hx : ∀ c ∈ "only cb_a".toList, c ∉ ['\x22', '.', ';'] := forall_of_all (by decide)
  have hy : ∀ c ∈ "pgcrypto x".toList, c ∉ ['\x22', '.', ';'] := forall_of_all (by decide)
  refine ⟨hx, ?_, hy, ?_⟩
  · rw [((check_quoted_name hx).2.2.1 (by decide)).1]
    exact fun hn => absurd (hn "cb_a".toList (by decide)) (by decide)
  · rw [((check_quoted_name hy).2.2.1 (by decide)).2]
    rintro (hn | hc)
    · cases hn
    · exact absurd (hc ' ' (by decide)) (by decide)

/-- The quotes hide that the names are none that the policy allows. -/
theorem check_quoted_only :
    let policy : Policy := ⟨"cb_", ["public"], ["auth"], ["pgcrypto"]⟩
    check policy (.ofList (quotedTable "only cb_a".toList)) = [⟨"create table only cb_a (id int)", []⟩] ∧
      ¬ policy.requiredPrefix.toList <+: lower "only cb_a".toList ∧
      check policy (.ofList (quotedExtension "pgcrypto x".toList)) = [⟨"create extension pgcrypto x", []⟩] ∧
      .ofList (lower "pgcrypto x".toList) ∉ policy.allowedExtensions := by
  refine ⟨?_, ?_, ?_, ?_⟩
  · decide
  · decide
  · decide
  · decide

end MigrationLint.Sql
