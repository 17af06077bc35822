import MigrationLint.Proofs.Ordinary
import MigrationLint.Proofs.ReadNames
import MigrationLint.Proofs.Spaces

/-!
# Comments between two texts

Stripping leaves nothing of a block comment, so the texts before and after it are checked as one
(`not_flagged_comment_iff`). In a language where a comment is a blank this hides a problem exactly at the
pairs of characters that join (`comment_hides_joins`).
-/

namespace MigrationLint.Sql

open Text

def comment (c : List Char) : List Char := ['/', '*'] ++ c ++ ['*', '/']

/-! ## Texts before and after a comment -/

section
variable {policy : Policy} {p q : List Char}

theorem not_flagged_comment_iff {c : List Char} (hc : ¬ ['*', '/'] <:+: c) (h : PlainAt p (comment c ++ q)) :
    ¬ Flagged policy (p ++ comment c ++ q) ↔
      ∀ piece ∈ pieces (· == ';') (normal p ++ normal q), Clean policy (blocks piece) := by
  apply not_flagged_iff_of_map
  have hs : strip (comment c ++ q) = strip q := strip_closed (r := .block) trivial hc (fun d hd => by cases hd)
  rw [normal, List.append_assoc, h.strip_append, hs, lower_append, List.map_append]
  rfl

theorem not_flagged_blank_iff (h : PlainAt p (' ' :: q)) :
    ¬ Flagged policy (p ++ ' ' :: q) ↔
      ∀ piece ∈ pieces (· == ';') (normal p ++ ' ' :: normal q), Clean policy (blocks piece) := by
  apply not_flagged_iff_of_map
  have hs : strip (' ' :: q) = [' '] ++ strip q := rfl
  rw [normal, h.strip_append, hs, lower_append, lower_append, List.map_append]
  rfl

theorem flagged_comment {c : List Char} (hc : ¬ ['*', '/'] <:+: c) (h : PlainAt p (comment c ++ q))
    (h' : PlainAt p (' ' :: q)) (hj : ∀ a ∈ (normal p).getLast?, ∀ b ∈ (normal q).head?, ¬ Joins a b)
    (hf : Flagged policy (p ++ ' ' :: q)) : Flagged policy (p ++ comment c ++ q) := by
  by_contra hn
  rw [not_flagged_comment_iff hc h] at hn
  exact (not_flagged_blank_iff h').mpr (clean_blank hj hn) hf

end

/-! ## Texts that show what a comment hides -/

/-- Whatever a comment between the two texts holds, it hides all that is wrong with the text that has a
blank in its place. -/
def Hides (policy : Policy) (p q : List Char) : Prop :=
  ∀ c, ¬ ['*', '/'] <:+: c → PlainAt p (comment c ++ q) ∧ PlainAt p (' ' :: q) ∧
    Flagged policy (p ++ ' ' :: q) ∧ ¬ Flagged policy (p ++ comment c ++ q)

/-- Comments between the two characters can hide problems. -/
def HidesBetween (a b : Char) : Prop :=
  ∃ policy p q, (normal p).getLast? = some a ∧ (normal q).head? = some b ∧ Hides policy p q

section
variable {a b : Char} (policy : Policy)

theorem hides_of (p q : List Char) {A B : List Char} (hp : ∀ x t, x = '/' ∨ x = ' ' → PlainAt p (x :: t))
    (hA : normal p = A) (hB : normal q = B) (ha : A.getLast? = some a) (hb : B.head? = some b)
    (hs : ∀ c ∈ A ++ B, (c == ';') = false) (hd : ¬ Clean policy (blocks A ++ blocks B))
    (hc : Clean policy (blocks (A ++ B))) : HidesBetween a b := by
  refine ⟨policy, p, q, hA ▸ ha, hB ▸ hb, fun c hcom => ?_⟩
  have h : PlainAt p (comment c ++ q) := hp '/' _ (.inl rfl)
  have h' : PlainAt p (' ' :: q) := hp ' ' q (.inr rfl)
  have hs' : ∀ c ∈ A ++ ' ' :: B, (c == ';') = false := by
    simp only [List.forall_mem_append, List.forall_mem_cons] at hs ⊢
    exact ⟨hs.1, by decide, hs.2⟩
  refine ⟨h, h', ?_, ?_⟩
  · by_contra hn
    rw [not_flagged_blank_iff h', hA, hB, pieces_of_none hs', List.forall_mem_singleton,
      blocks_append_blank (by decide)] at hn
    exact hd hn
  · rw [not_flagged_comment_iff hcom h, hA, hB, pieces_of_none hs, List.forall_mem_singleton]
    exact hc

theorem hides_of_ordinary (A B : List Char) (h : ∀ d ∈ A ++ B, Ordinary d) (hA : '-' ∉ A.dropLast)
    (hB : '-' ∉ B.dropLast) (ha : A.getLast? = some a) (hb : B.head? = some b)
    (hd : ¬ Clean policy (blocks A ++ blocks B)) (hc : Clean policy (blocks (A ++ B))) : HidesBetween a b := by
  rw [List.forall_mem_append] at h
  obtain ⟨p, hp, plain⟩ := exists_text h.1 hA
  obtain ⟨q, hq, -⟩ := exists_text h.2 hB
  refine hides_of policy p q (fun x t hx => plain _ ?_) hp hq ha hb ?_ hd hc
  · rcases hx with rfl | rfl <;> simp
  · intro c hm
    rw [beq_eq_false_iff_ne]
    intro e
    subst e
    have ho : Ordinary ';' := by
      rcases List.mem_append.mp hm with hm | hm
      · exact h.1 _ hm
      · exact h.2 _ hm
    exact absurd ho.1 (by decide)

end

/-! ### Verdicts on a few words -/

theorem not_clean_of_schema {p : Policy} {ws : List Word} {schema : String}
    (hm : schema ∈ schemas (ws.flatMap tokens)) (hs : schema ∉ p.allowedSchemas) : ¬ Clean p ws :=
  fun h => hs (h.1 schema hm)

theorem not_clean_of_statement {p : Policy} {ws : List Word} {st : Statement} (hd : IsDdlWords ws)
    (hst : detectWords ws = some st) (ha : ¬ st.Accepted p) : ¬ Clean p ws := by
  intro h
  obtain ⟨⟨st', hst', ha'⟩, -⟩ := h.2 hd
  obtain rfl := Option.some.inj (hst.symm.trans hst')
  exact ha ha'

theorem not_clean_of_none {p : Policy} {ws : List Word} (hd : IsDdlWords ws) (hst : detectWords ws = none) :
    ¬ Clean p ws := by
  intro h
  obtain ⟨⟨st, hst', -⟩, -⟩ := h.2 hd
  cases hst.symm.trans hst'

theorem clean_of_statement {p : Policy} {ws : List Word} {st : Statement} (hst : detectWords ws = some st)
    (hs : ∀ schema ∈ schemas (ws.flatMap tokens), schema ∈ p.allowedSchemas) (ha : st.Accepted p)
    (ht : targets ws = []) : Clean p ws := by
  refine ⟨hs, fun _ => ⟨⟨st, hst, ha⟩, ?_⟩⟩
  simp [ht]

theorem blocks_append_word {w : Word} (hn : w ≠ []) (hw : ∀ c ∈ w, isBlank c = false) (x : List Char) :
    blocks (x ++ ' ' :: w) = blocks x ++ [w] := by
  rw [blocks_append_blank (by decide), blocks_word hn hw]

theorem isDdlWords_create (ws : List Word) : IsDdlWords ("create".toList :: ws) := by
  have h : leadWord ("create".toList :: ws) = "create".toList := rfl
  rw [IsDdlWords, h]
  decide

theorem schemas_of_words {ws : List Word} (h : ∀ w ∈ ws, '.' ∉ w) : schemas (ws.flatMap tokens) = [] := by
  refine schemas_of_no_dot fun hm => ?_
  obtain ⟨w, hw, hm⟩ := List.mem_flatMap.mp hm
  exact h w hw (mem_of_symbol hm)

theorem not_approves_of_length {p : Policy} {w : Word} (h : w.length < p.requiredPrefix.toList.length) :
    ¬ p.Approves (.ofList w) := by
  intro hx
  obtain ⟨name, -, -, hpre, hw | ⟨schema, -, hw, -⟩⟩ := hx
  · rw [← String.toList_inj, String.toList_ofList] at hw
    have := hpre.length_le
    rw [← hw] at this
    omega
  · rw [← String.toList_inj, String.toList_ofList] at hw
    have := hpre.length_le
    have hl := congrArg List.length hw
    simp only [String.toList_append, List.length_append] at hl
    omega

/-! ### Words with a dot -/

section
variable {s n : Word} (hs : ∀ c ∈ s, isWordChar c = true) (hn : ∀ c ∈ n, isWordChar c = true)
include hs hn

theorem blocks_dotted : blocks (s ++ '.' :: n) = [s ++ '.' :: n] := by
  apply blocks_word (by simp)
  rw [List.forall_mem_append, List.forall_mem_cons]
  exact ⟨fun c hc => isBlank_of_isWordChar (hs c hc), by decide, fun c hc => isBlank_of_isWordChar (hn c hc)⟩

theorem tokens_dotted (hs' : s ≠ []) (hn' : n ≠ []) : tokens (s ++ '.' :: n) = [.word s, .symbol '.', .word n] := by
  have hdot : ∀ c ∈ ('.' :: n).head?, isWordChar c = false := by
    intro c hc
    obtain rfl := Option.some.inj hc
    rfl
  rw [tokens_append fun _ _ c hc => .inr (hdot c hc), tokens_word hs' hs, tokens_symbol (by decide) rfl,
    tokens_word hn' hn]
  rfl

end

theorem schemas_dotted (s n : Word) :
    schemas [.word s, .symbol '.', .word n] = if isIdent s && isIdent n then [.ofList s] else [] := by
  rw [schemas]
  split
  · rfl
  · simp [schemas]

/-- A table in an allowed schema whose name is the prefix. -/
theorem clean_table {s n : Word} (hs : ∀ c ∈ s, isIdentChar c = true) (hn : ∀ c ∈ n, isIdentChar c = true)
    (hs' : s ≠ []) (hn' : n ≠ []) (ht : targets ["create".toList, "table".toList, s ++ '.' :: n] = []) :
    Clean ⟨.ofList n, [.ofList s], [], []⟩ ["create".toList, "table".toList, s ++ '.' :: n] := by
  have hdot : ∀ w : Word, (∀ c ∈ w, isIdentChar c = true) → '.' ∉ w := by
    intro w hw hd
    exact absurd (hw _ hd) (by decide)
  have hne : ∀ k : Word, '.' ∉ k → s ++ '.' :: n ≠ k := by
    intro k hk e
    subst e
    simp at hk
  have hrun : nameRun (s ++ '.' :: n) = s ++ '.' :: n := by
    apply List.takeWhile_eq_self_iff.mpr
    rw [List.forall_mem_append, List.forall_mem_cons]
    refine ⟨fun c hc => ?_, by decide, fun c hc => ?_⟩
    · exact isNameChar_iff.mpr (.inl (hs c hc))
    · exact isNameChar_iff.mpr (.inl (hn c hc))
  have hst := detectWords_table (hne _ (by decide)) (hne _ (by decide)) (by rw [hrun]; simp) []
  rw [hrun] at hst
  refine clean_of_statement hst ?_ ?_ ht
  · have hw := tokens_dotted (fun c hc => isWordChar_of_isIdentChar (hs c hc))
      (fun c hc => isWordChar_of_isIdentChar (hn c hc)) hs' hn'
    have hts : ["create".toList, "table".toList, s ++ '.' :: n].flatMap tokens =
        .word "create".toList :: .word "table".toList :: [.word s, .symbol '.', .word n] := by
      rw [← hw, List.flatMap_cons, List.flatMap_cons, List.flatMap_singleton]
      rfl
    rw [hts, schemas_skip (fun _ _ _ _ h => by cases h), schemas_skip (fun _ _ _ _ h => by cases h), schemas_dotted]
    split <;> simp
  · refine ⟨.ofList n, by simpa using hn', by simpa using hdot n hn, List.prefix_rfl,
      .inr ⟨.ofList s, by simpa using hdot s hs, ?_, .inr (by simp)⟩⟩
    rw [← String.toList_inj]
    simp

/-! ### A problem for every pair that joins -/

section
variable {a b : Char}

theorem ordinary_of_extension (ha : isExtensionChar a = true) (hl : ∃ c, Lowers c a) : Ordinary a := by
  refine ⟨?_, hl⟩
  rcases isExtensionChar_iff.mp ha with ha | rfl
  · exact .inl (isWordChar_of_isIdentChar ha)
  · exact .inr (by simp)

theorem extensionName_of_chars {w : Word} (hn : w ≠ []) (h : ∀ c ∈ w, isExtensionChar c = true) (ws : List Word) :
    extensionName (w :: ws) = some (.createExtension (.ofList w)) := by
  have hq : w.head? ≠ some '\x22' := by
    intro hq
    exact absurd (h _ (List.mem_of_mem_head? hq)) (by decide)
  rw [extensionName, if_neg hq, List.takeWhile_eq_self_iff.mpr h]
  simp [hn]

theorem ne_of_extension (ha : isExtensionChar a = true) {c : Char} (hc : isExtensionChar c = false) : c ≠ a := by
  intro e
  subst e
  simp [ha] at hc

/-- A name with a schema that the comment cuts off. -/
theorem hides_schema (ha : isIdentChar a = true) (hla : ∃ c, Lowers c a) : HidesBetween a '.' := by
  have hpre : blocks "create table".toList = ["create".toList, "table".toList] := rfl
  have hw : isWordChar a = true := isWordChar_of_isIdentChar ha
  have hn : isNameChar a = true := isNameChar_iff.mpr (.inl ha)
  have hblank : ∀ c ∈ [a], isBlank c = false := List.forall_mem_singleton.mpr (isBlank_of_isWordChar hw)
  have hcb : ∀ c ∈ "cb_".toList, isIdentChar c = true := forall_of_all (by decide)
  refine hides_of_ordinary ⟨.ofList "cb_".toList, [.ofList [a]], [], []⟩ ("create table".toList ++ [' ', a])
    ('.' :: "cb_".toList) ?_ (by show '-' ∉ "create table ".toList; decide) (by decide) rfl rfl ?_ ?_
  · have hdotted : ∀ d ∈ '.' :: "cb_".toList, Ordinary d := ordinary_of_all (by decide)
    have ha : Ordinary a := ⟨.inl hw, hla⟩
    rw [List.forall_mem_append, List.forall_mem_append, List.forall_mem_cons, List.forall_mem_singleton]
    exact ⟨⟨ordinary_of_all (by decide), ordinary_blank, ha⟩, hdotted⟩
  · rw [blocks_append_word (by simp) hblank, hpre]
    have hst := detectWords_table (w := [a]) (by simp) (by simp) (by simp [nameRun, hn])
      (blocks ('.' :: "cb_".toList))
    refine not_clean_of_statement (isDdlWords_create _) hst (not_approves_of_length ?_)
    simp [nameRun, hn]
  · rw [List.append_assoc, List.cons_append, blocks_append_blank (by decide), hpre,
      blocks_dotted (List.forall_mem_singleton.mpr hw) fun c hc => isWordChar_of_isIdentChar (hcb c hc)]
    exact clean_table (List.forall_mem_singleton.mpr ha) hcb (by simp) (by simp) rfl

/-- An extension whose name the comment cuts. -/
theorem hides_extension (ha : isExtensionChar a = true) (hb : isExtensionChar b = true) (hla : ∃ c, Lowers c a)
    (hlb : ∃ c, Lowers c b) : HidesBetween a b := by
  have hpre : blocks "create extension".toList = ["create".toList, "extension".toList] := rfl
  have hblank : ∀ c ∈ [a, b], isBlank c = false := by
    simp [isBlank_of_isExtensionChar ha, isBlank_of_isExtensionChar hb]
  have hchars : ∀ c ∈ [a, b], isExtensionChar c = true := by simp [ha, hb]
  refine hides_of_ordinary ⟨"cb_", [], [], [.ofList [a, b]]⟩ ("create extension".toList ++ [' ', a]) [b] ?_
    (by show '-' ∉ "create extension ".toList; decide) (by simp) rfl rfl ?_ ?_
  · simp only [List.forall_mem_append, List.forall_mem_cons]
    exact ⟨⟨ordinary_of_all (by decide), ordinary_blank, ordinary_of_extension ha hla, by simp⟩,
      ordinary_of_extension hb hlb, by simp⟩
  · rw [blocks_append_word (by simp) (by simpa using hblank a (by simp)), hpre,
      blocks_word (w := [b]) (by simp) (by simpa using hblank b (by simp))]
    have hst : detectWords ["create".toList, "extension".toList, [a], [b]] = some (.createExtension (.ofList [a])) :=
      (detectWords_createExtension (by simp [after?, ifNotExists])).trans
        (extensionName_of_chars (by simp) (by simpa using ha) _)
    refine not_clean_of_statement (isDdlWords_create _) hst fun hacc => ?_
    have := congrArg String.toList (List.mem_singleton.mp hacc)
    simp at this
  · rw [List.append_assoc, List.cons_append, List.singleton_append, blocks_append_word (by simp) hblank, hpre]
    have hst : detectWords ["create".toList, "extension".toList, [a, b]] = some (.createExtension (.ofList [a, b])) :=
      (detectWords_createExtension (by simp [after?, ifNotExists])).trans
        (extensionName_of_chars (by simp) hchars _)
    refine clean_of_statement hst ?_ (by simp [Statement.Accepted]) rfl
    rw [schemas_of_words]
    · simp
    · simpa using ⟨ne_of_extension ha (by decide), ne_of_extension hb (by decide)⟩

/-- A name whose last part the comment cuts off. -/
theorem hides_object (hb : isIdentChar b = true) (hlb : ∃ c, Lowers c b) : HidesBetween '.' b := by
  have hpre : blocks "create table".toList = ["create".toList, "table".toList] := rfl
  have hw : isWordChar b = true := isWordChar_of_isIdentChar hb
  refine hides_of_ordinary ⟨.ofList [b], [.ofList ['s']], [], []⟩ "create table s.".toList [b] ?_ (by decide)
    (by simp) (by decide) rfl ?_ ?_
  · exact List.forall_mem_append.mpr ⟨ordinary_of_all (by decide), List.forall_mem_singleton.mpr ⟨.inl hw, hlb⟩⟩
  · have hp : blocks "create table s.".toList = ["create".toList, "table".toList, "s.".toList] := rfl
    rw [hp]
    have hst := detectWords_table (w := "s.".toList) (by decide) (by decide) (by decide) (blocks [b])
    refine not_clean_of_statement (isDdlWords_create _) hst fun hacc => ?_
    have := (Policy.checkName_eq_nil_iff _ "table").mpr hacc
    cases this
  · rw [show "create table s.".toList ++ [b] = "create table".toList ++ ' ' :: (['s'] ++ '.' :: [b]) from rfl,
      blocks_append_blank (by decide), hpre,
      blocks_dotted (forall_of_all (by decide)) (List.forall_mem_singleton.mpr hw)]
    exact clean_table (forall_of_all (by decide)) (List.forall_mem_singleton.mpr hb) (by simp) (by simp) rfl

/-- A reference whose second identifier the comment cuts. -/
theorem hides_reference (ha : isIdentChar a = true) (hb : isWordChar b = true) (hb' : isIdentChar b = false)
    (hla : ∃ c, Lowers c a) (hlb : ∃ c, Lowers c b) : HidesBetween a b := by
  have hw : isWordChar a = true := isWordChar_of_isIdentChar ha
  have hx : ∀ c ∈ ['x'], isWordChar c = true := forall_of_all (by decide)
  have hxa : ∀ c ∈ ['x', a], isWordChar c = true := List.forall_mem_cons.mpr ⟨by decide, by simpa using hw⟩
  have hxab : ∀ c ∈ ['x', a, b], isWordChar c = true := List.forall_mem_cons.mpr ⟨by decide, by simp [hw, hb]⟩
  refine hides_of_ordinary ⟨"cb_", [], [], []⟩ (['x'] ++ '.' :: ['x', a]) [b] ?_ (by show '-' ∉ "x.x".toList; decide)
    (by simp) rfl rfl ?_ ?_
  · have hxx : ∀ d ∈ "x.x".toList, Ordinary d := ordinary_of_all (by decide)
    rw [show (['x'] ++ '.' :: ['x', a]) ++ [b] = "x.x".toList ++ [a, b] from rfl, List.forall_mem_append]
    exact ⟨hxx, List.forall_mem_cons.mpr ⟨⟨.inl hw, hla⟩, List.forall_mem_singleton.mpr ⟨.inl hb, hlb⟩⟩⟩
  · have hi : (isIdent ['x'] && isIdent ['x', a]) = true := by simp [isIdent, ha]
    rw [blocks_dotted hx hxa, blocks_word (by simp) (by simpa using isBlank_of_isWordChar hb)]
    refine not_clean_of_schema (?_ : .ofList ['x'] ∈ _) (by simp)
    rw [List.flatMap_append, List.flatMap_singleton, tokens_dotted hx hxa (by simp) (by simp), List.cons_append,
      List.cons_append, List.cons_append, schemas, if_pos hi]
    exact List.mem_cons_self
  · have hi : isIdent ['x', a, b] = false := by simp [isIdent, hb']
    have hlead : leadWord [['x'] ++ '.' :: ['x', a, b]] = ['x'] := rfl
    rw [show (['x'] ++ '.' :: ['x', a]) ++ [b] = ['x'] ++ '.' :: ['x', a, b] from rfl, blocks_dotted hx hxab]
    refine ⟨?_, fun hddl => ?_⟩
    · rw [List.flatMap_singleton, tokens_dotted hx hxab (by simp) (by simp), schemas_dotted, hi, Bool.and_false]
      simp
    · rw [IsDdlWords, hlead] at hddl
      exact absurd hddl (by decide)

/-- A schema that the comment cuts off from the word before it. -/
theorem hides_start (ha : isWordChar a = true) (ha' : isIdentChar a = false) (hb : b.isLower = true ∨ b = '_')
    (hla : ∃ c, Lowers c a) (hlb : ∃ c, Lowers c b) : HidesBetween a b := by
  have hw : isWordChar b = true := by
    rcases hb with hb | rfl
    · exact isWordChar_of_isIdentChar (isIdentChar_of_isLower hb)
    · decide
  have hx : ∀ c ∈ ['x'], isWordChar c = true := forall_of_all (by decide)
  have hsb : ∀ c ∈ [b], isWordChar c = true := List.forall_mem_singleton.mpr hw
  have hsab : ∀ c ∈ [a, b], isWordChar c = true := by simp [ha, hw]
  refine hides_of_ordinary ⟨"cb_", [], [], []⟩ [a] ([b] ++ '.' :: ['x']) ?_ (by simp) ?_ rfl rfl ?_ ?_
  · have hxx : ∀ d ∈ ".x".toList, Ordinary d := ordinary_of_all (by decide)
    exact List.forall_mem_cons.mpr ⟨⟨.inl ha, hla⟩, List.forall_mem_cons.mpr ⟨⟨.inl hw, hlb⟩, hxx⟩⟩
  · rw [show ([b] ++ '.' :: ['x']).dropLast = [b, '.'] from rfl]
    simp only [List.mem_cons, List.not_mem_nil, or_false, not_or]
    refine ⟨?_, by decide⟩
    intro e
    subst e
    exact absurd hw (by decide)
  · have hi : (isIdent [b] && isIdent ['x']) = true := by simp [isIdent, hb]
    refine not_clean_of_schema (?_ : .ofList [b] ∈ _) (by simp)
    rw [blocks_word (w := [a]) (by simp) (by simpa using isBlank_of_isWordChar ha), blocks_dotted hsb hx,
      List.flatMap_append, List.flatMap_singleton, List.flatMap_singleton, tokens_word (by simp) (by simpa using ha),
      tokens_dotted hsb hx (by simp) (by simp), List.singleton_append, schemas_skip (fun _ _ _ _ h => by cases h),
      schemas_dotted, if_pos hi]
    exact List.mem_cons_self
  · have hi : isIdent [a, b] = false := Bool.eq_false_iff.mpr fun hi => by
      simp [isIdentChar_of_mem hi List.mem_cons_self] at ha'
    rw [show [a] ++ ([b] ++ '.' :: ['x']) = [a, b] ++ '.' :: ['x'] from rfl, blocks_dotted hsab hx]
    refine ⟨?_, fun hddl => ?_⟩
    · rw [List.flatMap_singleton, tokens_dotted hsab hx (by simp) (by simp), schemas_dotted, hi, Bool.false_and]
      simp
    · have hk := isKeyword_ddl _ hddl
      rw [String.toList_ofList] at hk
      have hl := hk.2 a (by simp [leadWord, ha])
      simp [isIdentChar_of_isLower hl] at ha'

/-- An extension whose quote the comment cuts off. -/
theorem hides_quoted (hb : isExtensionChar b = true) (hlb : ∃ c, Lowers c b) : HidesBetween '\x22' b := by
  have hpre : blocks "create extension".toList = ["create".toList, "extension".toList] := rfl
  have hblank : ∀ c ∈ ['\x22', b], isBlank c = false :=
    List.forall_mem_cons.mpr ⟨by decide, by simpa using isBlank_of_isExtensionChar hb⟩
  have hnormal : normal "create extension \x22\x22\x22\x22".toList = "create extension".toList ++ [' ', '\x22'] := by
    decide
  obtain ⟨q, hq, -⟩ := exists_text (List.forall_mem_singleton.mpr (ordinary_of_extension hb hlb)) (by simp)
  refine hides_of ⟨"cb_", [], [], [.ofList [b]]⟩ _ q ?_ hnormal hq rfl rfl ?_ ?_ ?_
  · rintro x t (rfl | rfl) <;> exact ⟨rfl, rfl⟩
  · refine List.forall_mem_append.mpr ⟨forall_of_all (by decide), ?_⟩
    simpa using (ne_of_extension hb (by decide)).symm
  · rw [blocks_append_word (by simp) (forall_of_all (by decide)), hpre,
      blocks_word (w := [b]) (by simp) (by simpa using hblank b (by simp))]
    have hst : detectWords ["create".toList, "extension".toList, ['\x22'], [b]] = none :=
      (detectWords_createExtension (by simp [after?, ifNotExists])).trans rfl
    exact not_clean_of_none (isDdlWords_create _) hst
  · rw [List.append_assoc, List.cons_append, List.singleton_append, blocks_append_word (by simp) hblank, hpre]
    have hst : detectWords ["create".toList, "extension".toList, ['\x22', b]] =
        some (.createExtension (.ofList [b])) := by
      refine (detectWords_createExtension (by simp [after?, ifNotExists])).trans ?_
      simp [extensionName, hb]
    refine clean_of_statement hst ?_ (by simp [Statement.Accepted]) rfl
    rw [schemas_of_words]
    · simp
    · simpa using ne_of_extension hb (by decide)

/-- An extension that the comment makes part of a keyword. -/
theorem hides_keyword : HidesBetween 's' '\x22' := by
  have hp : normal "create extension if not exists".toList = "create extension if not exists".toList := by decide
  have hq : normal "\x22\x22\x22x\x22".toList = ['\x22', 'x'] := by decide
  refine hides_of ⟨"cb_", [], [], ["if"]⟩ _ _ ?_ hp hq (by decide) rfl (forall_of_all (by decide)) ?_ ?_
  · rintro x t (rfl | rfl) <;> exact ⟨rfl, rfl⟩
  · have hst : detectWords (blocks "create extension if not exists".toList ++ blocks ['\x22', 'x']) =
        some (.createExtension "x") := rfl
    exact not_clean_of_statement (isDdlWords_create _) hst (by simp [Statement.Accepted])
  · have hst : detectWords (blocks ("create extension if not exists".toList ++ ['\x22', 'x'])) =
        some (.createExtension "if") := rfl
    exact clean_of_statement hst (by decide) (by simp [Statement.Accepted]) rfl

theorem hides_joins (h : Joins a b) (hla : ∃ c, Lowers c a) (hlb : ∃ c, Lowers c b) : HidesBetween a b := by
  have hi : ∀ {c}, isIdentChar c = true → isExtensionChar c = true := fun hc => isExtensionChar_iff.mpr (.inl hc)
  rcases h with ⟨ha, hb⟩ | ⟨ha, rfl | hb⟩ | ⟨rfl, hb⟩ | ⟨ha, hb⟩ | ⟨rfl, hb⟩ | ⟨rfl, rfl⟩
  · exact hides_extension ha hb hla hlb
  · exact hides_schema ha hla
  · cases hb' : isIdentChar b with
    | true => exact hides_extension (hi ha) (hi hb') hla hlb
    | false => exact hides_reference ha hb hb' hla hlb
  · exact hides_object hb hlb
  · cases ha' : isIdentChar a with
    | true =>
      refine hides_extension (hi ha') (hi ?_) hla hlb
      rcases hb with hb | rfl
      · exact isIdentChar_of_isLower hb
      · decide
    | false => exact hides_start ha ha' hb hla hlb
  · exact hides_quoted hb hlb
  · exact hides_keyword

end

/-- **Comments between two texts.** The texts around a block comment are checked as one. That hides nothing
which a blank in its place would show, unless the characters around the comment join; and wherever two
characters join a comment can hide a problem. -/
theorem comment_hides_joins {policy : Policy} {p q c : List Char} (hc : ¬ ['*', '/'] <:+: c)
    (h : PlainAt p (comment c ++ q)) (h' : PlainAt p (' ' :: q)) :
    (Flagged policy (p ++ comment c ++ q) ↔
      ∃ piece ∈ pieces (· == ';') (normal p ++ normal q), ¬ Clean policy (blocks piece)) ∧
    ((∀ a ∈ (normal p).getLast?, ∀ b ∈ (normal q).head?, ¬ Joins a b) →
      Flagged policy (p ++ ' ' :: q) → Flagged policy (p ++ comment c ++ q)) ∧
    ∀ a ∈ (normal p).getLast?, ∀ b ∈ (normal q).head?, Joins a b → HidesBetween a b := by
  refine ⟨?_, flagged_comment hc h h', ?_⟩
  · rw [← not_iff_not, not_flagged_comment_iff hc h]
    simp only [not_exists, not_and, not_not]
  · intro a ha b hb hj
    exact hides_joins hj (exists_lowers (List.mem_of_getLast? ha)) (exists_lowers (List.mem_of_mem_head? hb))

/-- A comment behind a name does not join; one between two keywords does. -/
theorem flagged_comment_behind_name :
    (let policy : Policy := ⟨"cb_", ["public"], ["auth"], []⟩
    let p := "create table widgets".toList
    let q := "(id int);".toList
    Flagged policy (p ++ ' ' :: q) ∧ Flagged policy (p ++ comment "x".toList ++ q)) ∧ HidesBetween 'e' 't' := by
  have h : Flagged ⟨"cb_", ["public"], ["auth"], []⟩
      ("create table widgets".toList ++ ' ' :: "(id int);".toList) := by
    unfold Flagged
    decide
  have hp : (normal "create table widgets".toList).getLast? = some 's' := by decide
  have hq : (normal "(id int);".toList).head? = some '(' := by decide
  have hj : ∀ a ∈ (normal "create table widgets".toList).getLast?, ∀ b ∈ (normal "(id int);".toList).head?,
      ¬ Joins a b := by
    intro a ha b hb
    obtain rfl := Option.some.inj (hp.symm.trans ha)
    obtain rfl := Option.some.inj (hq.symm.trans hb)
    decide
  refine ⟨⟨h, ?_⟩, ?_⟩
  · exact (comment_hides_joins (by decide) ⟨rfl, rfl⟩ ⟨rfl, rfl⟩).2.1 hj h
  · have hkeywords := @comment_hides_joins ⟨"cb_", [], [], []⟩ "create".toList "table t;".toList [] (by decide)
      ⟨rfl, rfl⟩ ⟨rfl, rfl⟩
    exact hkeywords.2.2 'e' (by decide) 't' (by decide) (by decide)

/-- A comment between two keywords hides the table. -/
theorem check_comment_between_keywords :
    let policy : Policy := ⟨"cb_", ["public"], ["auth"], []⟩
    let p := "create".toList
    let q := "table widgets (id int);".toList
    PlainAt p (comment [] ++ q) ∧ PlainAt p (' ' :: q) ∧
      check policy (.ofList (p ++ ' ' :: q)) =
        [⟨"create table widgets (id int)", [.missingPrefix "table" (some "widgets")]⟩] ∧
      check policy (.ofList (p ++ comment [] ++ q)) = [⟨"createtable widgets (id int)", []⟩] := by
  refine ⟨⟨rfl, rfl⟩, ⟨rfl, rfl⟩, ?_, ?_⟩
  · decide
  · decide

end MigrationLint.Sql
