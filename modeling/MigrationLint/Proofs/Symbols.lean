import MigrationLint.Proofs.Gaps
import MigrationLint.Proofs.Order
import MigrationLint.Proofs.QuotedNames

/-!
# Statements taken apart at a symbol

A parenthesis or a comma is part of no name and of no reference. So the schemas and the foreign keys of a
statement are those of its parts, wherever there is such a symbol (`schemaRefs_symbol`, `foreignKeys_symbol`).
-/

namespace MigrationLint.Sql

open Text

/-- What a recognized statement is accepted for. -/
theorem checkStatement_detected_iff {p : Policy} {s : List Char} {st : Statement} (hst : detect s = some st) :
    checkStatement p s = [] ↔
      (∀ schema ∈ schemaRefs s, schema ∈ p.allowedSchemas) ∧ st.check p = [] ∧
        ∀ target ∈ foreignKeys s, p.Approves target := by
  rw [checkStatement_ddl_eq_nil_iff (isDdl_of_detect hst), schemaProblems_eq_nil_iff, foreignKeyProblems_eq_nil_iff]
  unfold formProblems
  rw [hst, Option.elim_some]

/-! ## Blanks at the ends -/

section
variable {g : List Char} (hg : ∀ b ∈ g, isBlank b = true)
include hg

theorem tokens_blanks : tokens g = [] := by
  rw [tokens_blocks, blocks_eq_nil_of_blank hg]
  rfl

theorem schemaRefs_append_blanks (s : List Char) : schemaRefs (s ++ g) = schemaRefs s := by
  have hs : tokens (s ++ g) = tokens s ++ tokens g :=
    tokens_append fun _ _ b hb => .inr (isWordChar_of_isBlank (hg b (List.mem_of_mem_head? hb)))
  unfold schemaRefs
  rw [hs, tokens_blanks hg, List.append_nil]

theorem schemaRefs_blanks_append (s : List Char) : schemaRefs (g ++ s) = schemaRefs s := by
  have hs : tokens (g ++ s) = tokens g ++ tokens s :=
    tokens_append fun a ha _ _ => .inl (isWordChar_of_isBlank (hg a (List.mem_of_getLast? ha)))
  unfold schemaRefs
  rw [hs, tokens_blanks hg, List.nil_append]

omit hg in
theorem words_append_blank {b : Char} (hb : isBlank b = true) (s : List Char) :
    words (s ++ [b]) = words s ∨ words (s ++ [b]) = words s ++ [[]] := by
  induction s with
  | nil =>
    right
    rw [List.nil_append, words_blank hb]
    rfl
  | cons c s ih =>
    cases hc : isBlank c with
    | true =>
      rw [List.cons_append, words_blank hc, words_blank hc]
      cases s with
      | nil => simp [words, hb]
      | cons d s =>
        rw [List.cons_append, List.head?_cons, List.head?_cons]
        split
        · exact ih
        · simpa using ih
    | false =>
      rw [List.cons_append, words_cons hc, words_cons hc]
      obtain ⟨ws, hw⟩ := words_head s
      rcases ih with h | h
      · exact .inl (by rw [h])
      · exact .inr (by rw [h, hw]; rfl)

omit hg in
/-- A gap behind a text that no blank ends takes the words apart. -/
theorem words_append_gap {s g t : List Char} (hs : ∀ a ∈ s.getLast?, isBlank a = false) (hg : IsGap g)
    (ht : Halts isBlank t) : words (s ++ (g ++ t)) = words s ++ words t := by
  induction s with
  | nil => exact words_gap hg ht
  | cons c s ih =>
    cases s with
    | nil =>
      have hc := hs c rfl
      rw [List.singleton_append, words_cons hc, words_gap hg ht, words_cons hc]
      rfl
    | cons d s =>
      have ih := ih fun a ha => hs a (by rwa [List.getLast?_cons_cons])
      cases hc : isBlank c with
      | true =>
        rw [List.cons_append, words_blank hc, words_blank hc, ih, List.cons_append, List.head?_cons, List.head?_cons]
        split
        · rfl
        · rfl
      | false =>
        obtain ⟨ws, hw⟩ := words_head (d :: s)
        rw [List.cons_append, words_cons hc, words_cons hc, ih, hw]
        rfl

omit hg in
theorem foreignKeys_of_words {s : List Char} {ws : List Word} (h : words s = ws) :
    foreignKeys s = (targets ws).map .ofList := by
  unfold foreignKeys
  rw [h]
  cases ws <;> rfl

theorem foreignKeys_append_blanks (s : List Char) : foreignKeys (s ++ g) = foreignKeys s := by
  induction g generalizing s with
  | nil => rw [List.append_nil]
  | cons b g ih =>
    rw [List.forall_mem_cons] at hg
    rw [← List.singleton_append, ← List.append_assoc, ih hg.2]
    rcases words_append_blank hg.1 s with h | h
    · rw [foreignKeys_of_words h, foreignKeys_of_words rfl]
    · rw [foreignKeys_of_words h, targets_append rfl, foreignKeys_of_words rfl]
      exact congrArg _ (List.append_nil _)

theorem foreignKeys_blanks_append {s : List Char} (hs : Halts isBlank s) : foreignKeys (g ++ s) = foreignKeys s := by
  by_cases hne : g = []
  · rw [hne, List.nil_append]
  · rw [foreignKeys_of_words (words_gap ⟨hne, hg⟩ hs), foreignKeys_of_words rfl,
      targets_cons (endsWithWord_nil isKeyword_references [])]

end

/-! ## Symbols -/

variable {c : Char} (hc : IsSymbol c)
include hc

theorem IsSymbol.not_name : isNameChar c = false := by
  rw [Bool.eq_false_iff]
  intro h
  rcases isNameChar_iff.mp h with h | h
  · have := isWordChar_of_isIdentChar h
    simp [hc.2.1] at this
  · exact hc.2.2 h

omit hc in
theorem words_append_cons (hc : isBlank c = false) (s t : List Char) :
    ∃ W u v Z, words s = W ++ [u] ∧ words t = v :: Z ∧ words (s ++ c :: t) = W ++ (u ++ c :: v) :: Z := by
  obtain ⟨Z, ht⟩ := words_head t
  induction s with
  | nil => exact ⟨[], [], _, Z, rfl, ht, by rw [List.nil_append, words_cons hc, ht]; rfl⟩
  | cons d s ih =>
    obtain ⟨W, u, v, Z, hs, ht, hst⟩ := ih
    cases hd : isBlank d with
    | true =>
      have hhead : (s ++ c :: t).head?.any isBlank = s.head?.any isBlank := by
        cases s with
        | nil => simp [hc]
        | cons e s => rfl
      rw [List.cons_append, words_blank hd, words_blank hd, hhead, hst, hs]
      split
      · exact ⟨W, u, v, Z, rfl, ht, rfl⟩
      · exact ⟨[] :: W, u, v, Z, rfl, ht, rfl⟩
    | false =>
      rw [List.cons_append, words_cons hd, words_cons hd, hst, hs]
      cases W with
      | nil => exact ⟨[], d :: u, v, Z, rfl, ht, rfl⟩
      | cons w W => exact ⟨(d :: w) :: W, u, v, Z, rfl, ht, rfl⟩

section
variable {key : Word} (hk : IsKeyword key)
include hk

/-- A keyword cannot reach over the symbol, which is a boundary for it. -/
theorem endsWithWord_symbol (before u v : Word) : endsWithWord key before (u ++ c :: v) = endsWithWord key [] v := by
  have hkey : c ∉ key := fun hm => Bool.false_ne_true (hc.2.1.symm.trans (hk.isWordChar c hm))
  rw [Bool.eq_iff_iff, endsWithWord_iff, endsWithWord_iff]
  constructor
  · rintro ⟨t, ht, hb⟩
    rcases List.append_eq_append_iff.mp ht with ⟨t', rfl, ht'⟩ | ⟨t', -, ht'⟩
    · cases t' with
      | nil => exact absurd (by simp [show key = c :: v by simpa using ht'.symm]) hkey
      | cons d t' =>
        obtain ⟨rfl, hv⟩ := List.cons.inj ht'
        refine ⟨t', hv, fun a ha => hb a ?_⟩
        rw [List.nil_append] at ha
        simp [List.getLast?_append, List.getLast?_cons, Option.mem_def.mp ha]
    · exact absurd (by simp [ht']) hkey
  · rintro ⟨t, rfl, hb⟩
    refine ⟨u ++ c :: t, by simp, ?_⟩
    cases t with
    | nil => simp [hc.2.1]
    | cons d t => simpa [List.getLast?_append, List.getLast?_cons] using hb

theorem clauses_symbol (before u v : Word) (Z : List Word) :
    clauses key before (u ++ c :: v) Z = clauses key [] v Z := by
  cases Z with
  | nil => rfl
  | cons t Z => rw [clauses, clauses, endsWithWord_symbol hc hk]

theorem clauses_append (W : List Word) (before w u v : Word) (Z : List Word) :
    clauses key before w (W ++ (u ++ c :: v) :: Z) = clauses key before w (W ++ [u]) ++ clauses key [] v Z := by
  have hname := hc.not_name
  induction W generalizing before w with
  | nil =>
    have hrun : nameRun (u ++ c :: v) = nameRun u := takeWhile_append_of_stop fun _ a ha => by
      obtain rfl := Option.some.inj ha
      exact hname
    have hrest : (u ++ c :: v).dropWhile isNameChar = u.dropWhile isNameChar ++ c :: v := by
      by_cases hu : ∀ a ∈ u, isNameChar a = true
      · rw [rest_append_of_all hu, List.dropWhile_cons_of_neg (by simp [hname]), List.dropWhile_eq_nil_iff.mpr hu]
        rfl
      · exact (nameRun_append_of_not hu).2.1
    rw [List.nil_append, List.nil_append, clauses, clauses, hrun, hrest, clauses_symbol hc hk, clauses_symbol hc hk]
    split
    · rfl
    · rfl
  | cons x W ih =>
    rw [List.cons_append, List.cons_append, clauses, clauses, ih, ih]
    split
    · rfl
    · rfl

end

theorem foreignKeys_symbol (s t : List Char) : foreignKeys (s ++ c :: t) = foreignKeys s ++ foreignKeys t := by
  obtain ⟨W, u, v, Z, hs, ht, hst⟩ := words_append_cons hc.1 s t
  unfold foreignKeys
  rw [hs, ht, hst]
  cases W with
  | nil =>
    rw [List.nil_append, List.nil_append]
    exact congrArg _ (clauses_symbol hc isKeyword_references [] u v Z)
  | cons w W =>
    rw [List.cons_append, List.cons_append]
    dsimp only
    rw [clauses_append hc isKeyword_references, List.map_append]

end MigrationLint.Sql
