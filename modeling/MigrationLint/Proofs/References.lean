import MigrationLint.Proofs.Chains
import MigrationLint.Proofs.Ends
import MigrationLint.Proofs.Inert
import MigrationLint.Proofs.Spaces

/-!
# References to quoted objects

The references of a text are those of its normal form, whatever its statements are (`references_eq`). The
schema of a quoted object is one of them where the object starts with an identifier and no chain takes the
schema itself for an object; otherwise they do not depend on the schema at all (`references_quoted`).
-/

namespace MigrationLint.Sql

open Text

/-- The schemas that the statements of a text refer to. -/
def references (sql : String) : List String := (statements (normal sql.toList)).flatMap schemaRefs

/-! ## References of a text -/

theorem flatMap_statements (s : List Char) :
    (statements s).flatMap schemaRefs = (pieces (· == ';') s).flatMap schemaRefs := by
  rw [statements]
  generalize pieces (· == ';') s = l
  induction l with
  | nil => rfl
  | cons x l ih =>
    rw [List.map_cons, List.filter_cons, List.flatMap_cons, ← ih, ← schemaRefs_trim x]
    split
    · rfl
    · rename_i hx
      have hx : trim x = [] := by simpa using hx
      rw [hx]
      rfl

/-- The character is a word by itself for schema references, and it ends a name. -/
def IsSymbol (c : Char) : Prop := isBlank c = false ∧ isWordChar c = false ∧ c ≠ '.'

instance (c : Char) : Decidable (IsSymbol c) := by unfold IsSymbol; infer_instance

theorem schemaRefs_symbol {c : Char} (hc : IsSymbol c) (s t : List Char) :
    schemaRefs (s ++ c :: t) = schemaRefs s ++ schemaRefs t := by
  have hs : tokens (s ++ c :: t) = tokens s ++ .symbol c :: tokens t := by
    rw [tokens_append (by simp [hc.2.1]), tokens_symbol hc.1 hc.2.1]
  unfold schemaRefs
  rw [hs, schemas_symbol hc.2.2]

theorem flatMap_pieces (s : List Char) : (pieces (· == ';') s).flatMap schemaRefs = schemaRefs s := by
  induction hn : s.length using Nat.strong_induction_on generalizing s with
  | _ n ih =>
    by_cases h : ';' ∈ s
    · obtain ⟨a, b, rfl, -⟩ := List.eq_append_cons_of_mem h
      have hb := ih b.length (by simp only [List.length_append, List.length_cons] at hn; omega) b rfl
      have ha := ih a.length (by simp only [List.length_append, List.length_cons] at hn; omega) a rfl
      rw [pieces_append rfl, List.flatMap_append, ha, hb, schemaRefs_symbol (by decide)]
    · rw [pieces_of_none, List.flatMap_singleton]
      intro c hc
      rw [beq_eq_false_iff_ne]
      intro e
      subst e
      exact h hc

theorem references_eq (sql : String) : references sql = schemas (tokens (normal sql.toList)) := by
  rw [references, flatMap_statements, flatMap_pieces, schemaRefs]

theorem mem_references {policy : Policy} {sql schema : String} (h : schema ∈ references sql)
    (hs : schema ∉ policy.allowedSchemas) :
    ∃ st ∈ check policy sql, ∃ x, policy.checkSchema (some schema) = some x ∧ x ∈ st.problems := by
  obtain ⟨s, hm, hr⟩ := List.mem_flatMap.mp h
  obtain ⟨x, hx⟩ := Option.ne_none_iff_exists'.mp (mt policy.checkSchema_eq_none_iff.mp hs)
  have hfound : x ∈ schemaProblems policy s := List.mem_filterMap.mpr ⟨schema, hr, hx⟩
  refine ⟨_, List.mem_map_of_mem hm, x, hx, ?_⟩
  simp only [checkStatement]
  split
  · exact List.mem_append_left _ (List.mem_append_left _ hfound)
  · exact hfound

/-! ## First words -/

/-- The word characters at the front of a text, blanks before them left out. -/
def firstWord (s : List Char) : List Char := (s.dropWhile isBlank).takeWhile isWordChar

theorem tokens_dropWhile (s : List Char) : tokens (s.dropWhile isBlank) = tokens s := by
  induction s with
  | nil => rfl
  | cons c s ih =>
    rw [List.dropWhile_cons]
    split
    · rename_i hc
      rw [ih, tokens_blank hc]
    · rfl

theorem tokens_firstWord (s : List Char) :
    (∃ ts, firstWord s ≠ [] ∧ tokens s = .word (firstWord s) :: ts) ∨
      firstWord s = [] ∧ ∀ w ts, tokens s ≠ .word w :: ts := by
  rw [firstWord, ← tokens_dropWhile]
  have hb : ∀ c ∈ (s.dropWhile isBlank).head?, isBlank c = false := head_dropWhile
  generalize s.dropWhile isBlank = s at hb
  cases s with
  | nil => exact .inr ⟨rfl, by simp [tokens]⟩
  | cons c s =>
    have hb := hb c rfl
    cases hc : isWordChar c with
    | false =>
      refine .inr ⟨by simp [hc], fun w ts h => ?_⟩
      rw [tokens_symbol hb hc] at h
      cases h
    | true =>
      have hn : (c :: s).takeWhile isWordChar ≠ [] := by simp [hc]
      refine .inl ⟨tokens ((c :: s).dropWhile isWordChar), hn, ?_⟩
      conv_lhs => rw [← List.takeWhile_append_dropWhile (p := isWordChar) (l := c :: s)]
      rw [tokens_append, tokens_word hn fun d hd => List.mem_takeWhile_imp hd]
      · rfl
      · exact fun _ _ b hb => .inr (head_dropWhile b hb)

theorem schemas_object {s : List Char} (hs : isIdent s = true) (t : List Char) :
    schemas (.word s :: .symbol '.' :: tokens t) =
      if isIdent (firstWord t) then .ofList s :: schemas (tokens t).tail else schemas (tokens t) := by
  rcases tokens_firstWord t with ⟨ts, -, ht⟩ | ⟨h0, hn⟩
  · rw [ht]
    cases hi : isIdent (firstWord t) with
    | true => exact schemas_reference hs hi ts
    | false =>
      rw [schemas_skip (by simp [hi]), schemas_skip (by simp)]
      rfl
  · rw [h0, schemas_skip ?_, schemas_skip (by simp)]
    · rfl
    · intro a b l _ h
      exact absurd (List.cons.inj h).2 (hn b l)

/-! ## References in a text -/

theorem firstWord_midSigma (t : List Char) : firstWord (t.map midSigma) = (firstWord t).map midSigma := by
  rw [firstWord, firstWord, List.dropWhile_map, List.takeWhile_map]
  congr 2
  · exact funext faithful_midSigma.word
  · congr 1
    exact funext faithful_midSigma.blank

theorem isIdent_firstWord {t u : List Char} (h : t.map midSigma = u.map midSigma) :
    isIdent (firstWord t) = isIdent (firstWord u) := by
  rw [← faithful_midSigma.isIdent_map, ← firstWord_midSigma, h, firstWord_midSigma, faithful_midSigma.isIdent_map]

theorem schemas_midSigma {t u : List Char} (h : t.map midSigma = u.map midSigma) :
    schemas (tokens t) = schemas (tokens u) := by
  rw [← faithful_midSigma.schemas_map, ← faithful_midSigma.tokens_map, h, faithful_midSigma.tokens_map,
    faithful_midSigma.schemas_map]

/-- The characters that may stand before a reference. -/
def Opens (c : Char) : Prop := isBlank c = true ∨ c = '(' ∨ c = ','

theorem Opens.inert {c : Char} (h : Opens c) : Inert c := by
  rcases h with h | rfl | rfl
  · exact forall_of_all (p := Inert) (by decide) c (mem_blanks h)
  · decide
  · decide

theorem Opens.breaks {c : Char} (h : Opens c) : Breaks c ∧ lowerChar c = [c] := by
  rcases h with h | rfl | rfl
  · exact ⟨breaks_of_isBlank h, lowerChar_of_isBlank h⟩
  · decide
  · decide

theorem Opens.not_word {c : Char} (h : Opens c) : isWordChar c = false := by
  rcases h with h | rfl | rfl
  · exact Bool.eq_false_iff.mpr fun hw => by simp [isBlank_of_isWordChar hw] at h
  · decide
  · decide

theorem not_opener_of_isIdentChar {c : Char} (h : isIdentChar c = true) :
    c ∉ ['-', '/', '\x27', '\x22', '$'] :=
  forall_ascii (P := fun c => isIdentChar c = true → c ∉ ['-', '/', '\x27', '\x22', '$']) (by decide)
    (lt_of_isIdentChar h) h

/-- The text of a quoted object in a schema, between `p` and `q`. -/
def quoted (p s x q : List Char) : String := .ofList (p ++ (s ++ '.' :: (Segment.text ⟨.quoted, x, true⟩ ++ q)))

theorem lowerAfter_schema {s : List Char} (hs : ∀ c ∈ s, isIdentChar c = true) (cased : Bool) (t : List Char) :
    ∃ cased', lowerAfter cased (s ++ '.' :: t) = s ++ '.' :: lowerAfter cased' t := by
  have hmap : s.map Char.toLower = s := by
    conv_rhs => rw [← List.map_id s]
    exact List.map_congr_left fun c hc => toLower_of_isIdentChar (hs c hc)
  have hascii : ∀ c ∈ s ++ ['.'], c.toNat < 128 :=
    List.forall_mem_append.mpr ⟨fun c hc => lt_of_isIdentChar (hs c hc), List.forall_mem_singleton.mpr (by decide)⟩
  obtain ⟨cased', h⟩ := lowerAfter_ascii hascii cased t
  refine ⟨cased', ?_⟩
  rw [List.append_assoc, List.map_append, hmap] at h
  simpa using h

section
variable {p x q : List Char} (hp : PlainAt p []) (hend : ∀ c ∈ p.getLast?, Opens c) (hq : q.head? ≠ some '\x22')
include hp hend hq

theorem normal_quoted {s : List Char} (hs : isIdent s = true) :
    ∃ t, normal (quoted p s x q).toList = normal p ++ (s ++ '.' :: t) ∧
      t.map midSigma = (lower (x ++ strip q)).map midSigma := by
  obtain ⟨hplain, hlast⟩ := hp.extend fun c hc => (hend c hc).inert
  have hident : ∀ c ∈ s, isIdentChar c = true := fun c hc => isIdentChar_of_mem hs hc
  have hbefore : ∀ c ∈ s ++ ['.'], c ∉ ['-', '/', '\x27', '\x22', '$'] :=
    List.forall_mem_append.mpr
      ⟨fun c hc => not_opener_of_isIdentChar (hident c hc), List.forall_mem_singleton.mpr (by decide)⟩
  have hstrip : strip (quoted p s x q).toList = strip p ++ (s ++ '.' :: (x ++ strip q)) := by
    have := strip_append_of hbefore (Segment.text ⟨.quoted, x, true⟩ ++ q)
    rw [strip_quoted hq, List.append_assoc, List.append_assoc] at this
    rw [quoted, String.toList_ofList, (hplain _).strip_append]
    exact congrArg (strip p ++ ·) this
  obtain ⟨cased, hlower⟩ := lowerAfter_schema hident false (x ++ strip q)
  refine ⟨lowerAfter cased (x ++ strip q), ?_, by rw [lower, lowerAfter_map, lowerAfter_map]⟩
  rw [normal, normal, hstrip, lower_append_of_last, lower, lower, hlower]
  intro c hc
  rw [hlast] at hc
  exact (hend c hc).breaks.1

/-- What references see of the schema. -/
def Visible (p x q : List Char) : Prop :=
  Even (linked (tokens (normal p))) ∧ isIdent (firstWord (lower (x ++ strip q))) = true

omit hp hend hq in
instance : Decidable (Visible p x q) := by unfold Visible; infer_instance

/-- The references of the text, the schema of the quoted object among them where it is visible. -/
theorem references_quoted : ∃ before after, ∀ s, isIdent s = true →
    references (quoted p s x q) = before ++ (if Visible p x q then [.ofList s] else []) ++ after := by
  obtain ⟨before, hbefore⟩ := schemas_behind (tokens (normal p))
  let object := tokens (lower (x ++ strip q))
  refine ⟨before, schemas (if Visible p x q then object.tail else object), fun s hs => ?_⟩
  obtain ⟨t, ht, hsigma⟩ := normal_quoted hp hend hq (x := x) hs
  have hlast : ∀ c ∈ (normal p).getLast?, isWordChar c = false := by
    obtain ⟨-, hlast⟩ := hp.extend fun c hc => (hend c hc).inert
    intro c hc
    rw [normal, getLast?_lower (by rw [hlast]; exact fun c hc => (hend c hc).breaks), hlast] at hc
    exact (hend c hc).not_word
  -- the object's text depends on the schema in the forms of its sigmas, the references do not
  have hobject : schemas (tokens t) = schemas object := schemas_midSigma hsigma
  have htail : schemas (tokens t).tail = schemas object.tail := by
    rw [← faithful_midSigma.schemas_map, List.map_tail, ← faithful_midSigma.tokens_map, hsigma,
      faithful_midSigma.tokens_map, ← List.map_tail, faithful_midSigma.schemas_map]
  rw [references_eq, ht, tokens_schema hs hlast, hbefore s hs, schemas_object hs, isIdent_firstWord hsigma,
    schemas_skip (by simp), hobject, htail]
  by_cases heven : Even (linked (tokens (normal p)))
  · by_cases hfirst : isIdent (firstWord (lower (x ++ strip q))) = true
    · have hv : Visible p x q := ⟨heven, hfirst⟩
      simp [hv, heven, hfirst]
    · have hv : ¬ Visible p x q := fun h => hfirst h.2
      simp [hv, heven, hfirst]
  · have hv : ¬ Visible p x q := fun h => heven h.1
    simp [hv, heven]

end

/-- **References to quoted objects.** A check reports the schema of a quoted object if the object starts with
an identifier and no chain before it takes the schema. If not, the references are the same for every schema. -/
theorem check_quoted_object (policy : Policy) {p s x q : List Char} (hp : PlainAt p [])
    (hend : ∀ c ∈ p.getLast?, Opens c) (hq : q.head? ≠ some '\x22') (hs : isIdent s = true)
    (hforbidden : .ofList s ∉ policy.allowedSchemas) :
    (Visible p x q → ∃ st ∈ check policy (quoted p s x q), ∃ problem,
        policy.checkSchema (some (.ofList s)) = some problem ∧ problem ∈ st.problems) ∧
      (¬ Visible p x q → ∀ s', isIdent s' = true → references (quoted p s' x q) = references (quoted p s x q)) := by
  obtain ⟨before, after, hrefs⟩ := references_quoted hp hend hq (x := x)
  constructor
  · intro hv
    refine mem_references ?_ hforbidden
    rw [hrefs s hs, if_pos hv]
    simp
  · intro hv s' hs'
    rw [hrefs s hs, hrefs s' hs', if_neg hv, if_neg hv]

theorem check_quoted_object_users :
    let p := "select * from ".toList
    let s := "auth".toList
    let x := "Users".toList
    let policy : Policy := ⟨"cb_", ["public"], ["auth"], []⟩
    PlainAt p [] ∧ (∀ c ∈ p.getLast?, Opens c) ∧ isIdent s = true ∧ .ofList s ∉ policy.allowedSchemas ∧
      Visible p x [';'] ∧ ∃ st ∈ check policy (quoted p s x [';']), ∃ problem,
        policy.checkSchema (some (.ofList s)) = some problem ∧ problem ∈ st.problems := by
  have hp : PlainAt "select * from ".toList [] := ⟨rfl, rfl⟩
  have hend : ∀ c ∈ "select * from ".toList.getLast?, Opens c := by
    intro c hc
    cases hc
    exact .inl rfl
  have hv : Visible "select * from ".toList "Users".toList [';'] := by decide +kernel
  exact ⟨hp, hend, rfl, by decide, hv, (check_quoted_object _ hp hend (by decide) rfl (by decide)).1 hv⟩

/-- An object whose first word starts with a digit hides its schema. -/
theorem check_quoted_digit :
    let p := "select * from ".toList
    let policy : Policy := ⟨"cb_", ["public"], ["auth"], []⟩
    PlainAt p [] ∧ p.getLast? = some ' ' ∧ isIdent "auth".toList = true ∧ "auth" ∉ policy.allowedSchemas ∧
      policy.checkSchema (some "auth") = some (.blockedSchema "auth") ∧
      quoted p "auth".toList "1st".toList [';'] = "select * from auth.\x221st\x22;" ∧
      check policy "select * from auth.\x221st\x22;" = [⟨"select * from auth.1st", []⟩] := by
  refine ⟨⟨rfl, rfl⟩, rfl, rfl, by decide, rfl, rfl, ?_⟩
  decide

end MigrationLint.Sql
