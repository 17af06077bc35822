import Mathlib.Data.List.SplitBy
import MigrationLint.Proofs.Chains

/-!
# Chains of linked words

A text is cut into its words, each with the text up to the next one (`Cut`). Words that a dot links make up
chains (`Chains`), and in each chain every other word is a schema. So the scan for schemas finds what the
chains of a statement refer to (`schemaProblems_chains`).
-/

namespace MigrationLint.Sql

open Text

/-! ## Words and gaps -/

/-- A word and the gap behind it. -/
structure Stretch where
  word : List Char
  gap : List Char
  word_ne_nil : word ≠ []
  isWordChar_of_word : ∀ c ∈ word, isWordChar c = true
  isWordChar_of_gap : ∀ c ∈ gap, isWordChar c = false

def Stretch.text (r : Stretch) : List Char := r.word ++ r.gap

/-- A text as its words, with all that stands between them. -/
structure Cut (s lead : List Char) (rs : List Stretch) : Prop where
  text : s = lead ++ rs.flatMap Stretch.text
  lead : ∀ c ∈ lead, isWordChar c = false
  apart : ∀ r ∈ rs.dropLast, r.gap ≠ []

theorem exists_cut_words (s : List Char) : ∃ lead rs, Cut s lead rs := by
  induction s with
  | nil => exact ⟨[], [], rfl, by simp, by simp⟩
  | cons c s ih =>
    obtain ⟨lead, rs, rfl, hlead, hapart⟩ := ih
    cases hc : isWordChar c with
    | false => exact ⟨c :: lead, rs, rfl, List.forall_mem_cons.mpr ⟨hc, hlead⟩, hapart⟩
    | true =>
      cases lead with
      | cons d lead =>
        refine ⟨[], ⟨[c], d :: lead, by simp, by simpa using hc, hlead⟩ :: rs, by simp [Stretch.text],
          by simp, ?_⟩
        cases rs with
        | nil => simp
        | cons r rs => simpa using hapart
      | nil =>
        cases rs with
        | nil => exact ⟨[], [⟨[c], [], by simp, by simpa using hc, by simp⟩], rfl, by simp, by simp⟩
        | cons r rs =>
          have hword : ∀ d ∈ c :: r.word, isWordChar d = true :=
            List.forall_mem_cons.mpr ⟨hc, r.isWordChar_of_word⟩
          refine ⟨[], ⟨c :: r.word, r.gap, by simp, hword, r.isWordChar_of_gap⟩ :: rs, rfl, by simp, ?_⟩
          cases rs with
          | nil => simp
          | cons r' rs => simpa using hapart

/-! ## Tokens of a cut -/

theorem tokens_gap {g : List Char} (h : ∀ c ∈ g, isWordChar c = false) :
    tokens g = (g.filter fun c => !isBlank c).map .symbol := by
  induction g with
  | nil => rfl
  | cons c g ih =>
    rw [List.forall_mem_cons] at h
    cases hb : isBlank c with
    | true => rw [tokens_blank hb, ih h.2, List.filter_cons_of_neg (by simp [hb])]
    | false => rw [tokens_symbol hb h.1, ih h.2, List.filter_cons_of_pos (by simp [hb]), List.map_cons]

theorem schemas_gap {g : List Char} (h : ∀ c ∈ g, isWordChar c = false) (ts : List Token) :
    schemas (tokens g ++ ts) = schemas ts := by
  rw [tokens_gap h]
  induction g.filter fun c => !isBlank c with
  | nil => rfl
  | cons c g ih => rw [List.map_cons, List.cons_append, schemas_skip (by simp), ih]

def Stretch.tokens (r : Stretch) : List Token := .word r.word :: Sql.tokens r.gap

theorem tokens_stretches {rs : List Stretch} (h : ∀ r ∈ rs.dropLast, r.gap ≠ []) :
    tokens (rs.flatMap Stretch.text) = rs.flatMap Stretch.tokens := by
  induction rs with
  | nil => rfl
  | cons r rs ih =>
    have hword : tokens r.text = r.tokens := by
      rw [Stretch.text, tokens_append fun _ _ b hb => .inr (r.isWordChar_of_gap b (List.mem_of_mem_head? hb)),
        tokens_word r.word_ne_nil r.isWordChar_of_word]
      rfl
    cases rs with
    | nil => rw [List.flatMap_singleton, List.flatMap_singleton, hword]
    | cons r' rs =>
      rw [List.dropLast_cons_cons, List.forall_mem_cons] at h
      have hend : ∀ a ∈ r.text.getLast?, isWordChar a = false := by
        intro a ha
        rw [Stretch.text, List.getLast?_append_of_ne_nil _ h.1] at ha
        exact r.isWordChar_of_gap a (List.mem_of_mem_getLast? ha)
      rw [List.flatMap_cons, tokens_append fun a ha _ _ => .inl (hend a ha), ih h.2, hword, List.flatMap_cons,
        List.flatMap_cons, List.flatMap_cons]

theorem Cut.schemaRefs {s lead : List Char} {rs : List Stretch} (h : Cut s lead rs) :
    schemaRefs s = schemas (rs.flatMap Stretch.tokens) := by
  have hlead : ∀ a ∈ lead.getLast?, isWordChar a = false := fun a ha => h.lead a (List.mem_of_mem_getLast? ha)
  rw [Sql.schemaRefs, h.text, tokens_append fun a ha _ _ => .inl (hlead a ha), schemas_gap h.lead,
    tokens_stretches h.apart]

/-! ## Linked words -/

/-- Two identifiers with a dot between them; blanks around the dot do not matter. -/
def Linked (v w : Stretch) : Prop :=
  isIdent v.word = true ∧ isIdent w.word = true ∧
    ∃ a b, v.gap = a ++ '.' :: b ∧ (∀ c ∈ a, isBlank c = true) ∧ ∀ c ∈ b, isBlank c = true

theorem tokens_dot_iff {g : List Char} (h : ∀ c ∈ g, isWordChar c = false) :
    tokens g = [.symbol '.'] ↔
      ∃ a b, g = a ++ '.' :: b ∧ (∀ c ∈ a, isBlank c = true) ∧ ∀ c ∈ b, isBlank c = true := by
  have hdot : isBlank '.' = false := by decide
  have hone : (g.filter fun c => !isBlank c).map Token.symbol = [.symbol '.'] ↔
      (g.filter fun c => !isBlank c) = ['.'] := by
    rw [List.map_eq_singleton_iff]
    simp
  rw [tokens_gap h, hone, List.filter_eq_cons_iff]
  simp [hdot]

theorem schemas_linked {v w : Stretch} (h : Linked v w) (ts : List Token) :
    schemas (v.tokens ++ (w.tokens ++ ts)) = .ofList v.word :: schemas ts := by
  rw [Stretch.tokens, (tokens_dot_iff v.isWordChar_of_gap).mpr h.2.2, Stretch.tokens]
  simp only [List.cons_append, List.nil_append]
  rw [schemas_reference h.1 h.2.1, schemas_gap w.isWordChar_of_gap]

theorem gap_before_word {g : List Char} (hg : ∀ c ∈ g, isWordChar c = false) {rs : List Stretch} {b : List Char}
    {l : List Token} (h : tokens g ++ rs.flatMap Stretch.tokens = .symbol '.' :: .word b :: l) :
    tokens g = [.symbol '.'] ∧ ∃ w, rs.head? = some w ∧ w.word = b := by
  rw [tokens_gap hg] at h ⊢
  generalize (g.filter fun c => !isBlank c) = gs at h
  cases rs with
  | nil => rcases gs with _ | ⟨c, _ | ⟨d, gs⟩⟩ <;> simp at h
  | cons w rs =>
    rcases gs with _ | ⟨c, _ | ⟨d, gs⟩⟩
    · simp [Stretch.tokens] at h
    · simp only [List.map_cons, List.map_nil, List.flatMap_cons, Stretch.tokens, List.cons_append, List.nil_append,
        List.cons.injEq, Token.symbol.injEq, Token.word.injEq] at h
      exact ⟨by rw [h.1]; rfl, w, rfl, h.2.1⟩
    · simp at h

/-- A word that is not linked to the next is no schema. -/
theorem schemas_unlinked {v : Stretch} {rs : List Stretch} (h : ∀ w ∈ rs.head?, ¬ Linked v w) :
    schemas (v.tokens ++ rs.flatMap Stretch.tokens) = schemas (rs.flatMap Stretch.tokens) := by
  rw [Stretch.tokens, List.cons_append, schemas_skip, schemas_gap v.isWordChar_of_gap]
  intro a b l ha hl
  cases ha
  obtain ⟨hgap, w, hw, rfl⟩ := gap_before_word v.isWordChar_of_gap hl
  refine Bool.eq_false_iff.mpr fun hident => h w hw ?_
  rw [Bool.and_eq_true] at hident
  exact ⟨hident.1, hident.2, (tokens_dot_iff v.isWordChar_of_gap).mp hgap⟩

/-! ## Chains -/

/-- The words as chains of linked words that cannot be longer. -/
structure Chains (rs : List Stretch) (chains : List (List Stretch)) : Prop where
  flatten : chains.flatten = rs
  ne_nil : ∀ c ∈ chains, c ≠ []
  linked : ∀ c ∈ chains, c.IsChain Linked
  maximal : chains.IsChain fun c d => ∀ v ∈ c.getLast?, ∀ w ∈ d.head?, ¬ Linked v w

open Classical in
theorem exists_chains (rs : List Stretch) : ∃ chains, Chains rs chains := by
  refine ⟨rs.splitBy fun v w => decide (Linked v w), List.flatten_splitBy _ _,
    fun c => List.ne_nil_of_mem_splitBy, ?_, ?_⟩
  · intro c hc
    simpa using List.isChain_of_mem_splitBy hc
  · refine (List.isChain_getLast_head_splitBy _ rs).imp fun c d hcd v hv w hw => ?_
    obtain ⟨hc, hd, hlink⟩ := hcd
    rw [List.getLast?_eq_some_getLast hc, Option.mem_some_iff] at hv
    rw [List.head?_eq_some_head hd, Option.mem_some_iff] at hw
    simpa [hv, hw] using hlink

/-- The words of a chain at odd places that have a successor. -/
def schemasOf (chain : List Stretch) : List (List Char) :=
  ((chain.zipIdx 1).filter fun x => x.2 % 2 = 1 ∧ x.2 + 1 ≤ chain.length).map fun x => x.1.word

theorem schemasOf_cons (v w : Stretch) (chain : List Stretch) :
    schemasOf (v :: w :: chain) = v.word :: schemasOf chain := by
  have hplaces : chain.zipIdx 3 = (chain.zipIdx 1).map (Prod.map id (· + 2)) := by
    rw [List.map_snd_add_zipIdx_eq_zipIdx]
  rw [schemasOf, List.zipIdx_cons, List.zipIdx_cons, hplaces, List.length_cons, List.length_cons,
    List.filter_cons_of_pos (by simp), List.filter_cons_of_neg (by simp), List.filter_map, List.map_cons, List.map_map,
    schemasOf]
  simp [Function.comp_def]

theorem schemas_chain {chain rs : List Stretch} (hlinked : chain.IsChain Linked)
    (hend : ∀ v ∈ chain.getLast?, ∀ w ∈ rs.head?, ¬ Linked v w) :
    schemas (chain.flatMap Stretch.tokens ++ rs.flatMap Stretch.tokens) =
      (schemasOf chain).map .ofList ++ schemas (rs.flatMap Stretch.tokens) := by
  induction chain using List.twoStepInduction with
  | nil => rfl
  | singleton v =>
    rw [List.flatMap_singleton, schemas_unlinked (hend v rfl)]
    rfl
  | cons_cons v w chain ih =>
    rw [List.isChain_cons_cons] at hlinked
    have hend : ∀ v ∈ chain.getLast?, ∀ w ∈ rs.head?, ¬ Linked v w := by
      intro v hv
      exact hend v (by simp_all [List.getLast?_cons])
    rw [List.flatMap_cons, List.flatMap_cons, List.append_assoc, List.append_assoc, schemas_linked hlinked.1,
      ih hlinked.2.tail hend, schemasOf_cons]
    rfl

theorem schemas_chains {rs : List Stretch} {chains : List (List Stretch)} (h : Chains rs chains) :
    schemas (rs.flatMap Stretch.tokens) = (chains.flatMap schemasOf).map .ofList := by
  obtain ⟨rfl, hne, hlinked, hmax⟩ := h
  induction chains with
  | nil => rfl
  | cons c chains ih =>
    rw [List.forall_mem_cons] at hne hlinked
    rw [List.flatten_cons, List.flatMap_append, schemas_chain hlinked.1, ih hne.2 hlinked.2 hmax.tail,
      List.flatMap_cons, List.map_append]
    cases chains with
    | nil => simp
    | cons d chains =>
      rw [List.flatten_cons, List.head?_append_of_ne_nil _ (hne.2 d (by simp))]
      exact (List.isChain_cons_cons.mp hmax).1

/-- **The scan for schemas.** However a statement is cut into its words and these into chains of linked words,
the scan reports the schemas of the chains in the order of the text: of each chain the words at odd places that
have a successor. A check begins with what the scan reports, and ends with it if the statement is no DDL. -/
theorem schemaProblems_chains (p : Policy) (s : List Char) :
    (∃ lead rs, Cut s lead rs) ∧ ∀ lead rs, Cut s lead rs →
      (∃ chains, Chains rs chains) ∧ ∀ chains, Chains rs chains →
        schemaProblems p s = (chains.flatMap schemasOf).filterMap (fun w => p.checkSchema (some (.ofList w))) ∧
          ∃ rest, checkStatement p s = schemaProblems p s ++ rest ∧ (isDdl s = false → rest = []) := by
  refine ⟨exists_cut_words s, fun lead rs hcut => ⟨exists_chains rs, fun chains hchains => ⟨?_, ?_⟩⟩⟩
  · rw [schemaProblems, hcut.schemaRefs, schemas_chains hchains, List.filterMap_map]
    rfl
  · rw [checkStatement]
    cases isDdl s with
    | false => exact ⟨[], (List.append_nil _).symm, fun _ => rfl⟩
    | true => exact ⟨_, List.append_assoc _ _ _, by simp⟩

/-- A chain of four words behind a word that is no identifier: the first and the third are schemas. -/
theorem schemaProblems_chains_pairs :
    let p : Policy := ⟨"cb_", ["public"], ["auth"], []⟩
    let s := "\u00e9.auth.users . public.x2".toList
    let other : Stretch :=
      ⟨"\u00e9".toList, ".".toList, by decide, forall_of_all (by decide +kernel), forall_of_all (by decide)⟩
    let first : Stretch := ⟨"auth".toList, ".".toList, by decide, forall_of_all (by decide), forall_of_all (by decide)⟩
    let second : Stretch :=
      ⟨"users".toList, " . ".toList, by decide, forall_of_all (by decide), forall_of_all (by decide)⟩
    let third : Stretch :=
      ⟨"public".toList, ".".toList, by decide, forall_of_all (by decide), forall_of_all (by decide)⟩
    let last : Stretch := ⟨"x2".toList, [], by decide, forall_of_all (by decide), by simp⟩
    Cut s [] [other, first, second, third, last] ∧
      Chains [other, first, second, third, last] [[other], [first, second, third, last]] ∧
      schemaProblems p s = [.blockedSchema "auth"] ∧ checkStatement p s = [.blockedSchema "auth"] := by
  intro p s other first second third last
  have hcut : Cut s [] [other, first, second, third, last] :=
    ⟨by decide +kernel, by simp, by simp [other, first, second, third]⟩
  have hchains : Chains [other, first, second, third, last] [[other], [first, second, third, last]] := by
    have hfirst : Linked first second := ⟨by decide, by decide, [], [], rfl, by simp, by simp⟩
    have hblank : ∀ c ∈ [' '], isBlank c = true := List.forall_mem_singleton.mpr (by decide)
    have hsecond : Linked second third := ⟨by decide, by decide, [' '], [' '], rfl, hblank, hblank⟩
    have hthird : Linked third last := ⟨by decide, by decide, [], [], rfl, by simp, by simp⟩
    have hother : ¬ Linked other first := fun h => absurd h.1 (by decide +kernel)
    exact ⟨rfl, by simp, by simp [hfirst, hsecond, hthird], by simpa using hother⟩
  obtain ⟨hfound, rest, hcheck, hrest⟩ := ((schemaProblems_chains p s).2 _ _ hcut).2 _ hchains
  have hauth : schemaProblems p s = [.blockedSchema "auth"] := by
    rw [hfound]
    decide +kernel
  exact ⟨hcut, hchains, hauth, by rw [hcheck, hrest (by decide +kernel), hauth, List.append_nil]⟩

end MigrationLint.Sql
