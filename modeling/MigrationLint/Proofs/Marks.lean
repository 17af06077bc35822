import MigrationLint.Proofs.Denials
import MigrationLint.Proofs.References
import MigrationLint.Proofs.Sources
import MigrationLint.Proofs.Trees
import MigrationLint.Proofs.Verdict

/-!
# Byte order marks

A byte order mark is a symbol and no blank, so it is kept where the first statement is trimmed. Behind it no statement
starts with a word of DDL: what is left of the checks are the schema references (`issues_marked`).
-/

namespace MigrationLint

open Text

namespace Sql

/-! ## Statements behind a symbol -/

section
variable {c : Char} (hc : IsSymbol c) (s : List Char)
include hc

theorem isDdl_symbol : isDdl (c :: s) = false := by
  have hlead : leadWord (words (c :: s)) = [] := by
    rw [leadWord_words, List.takeWhile_cons_of_neg (by simp [hc.2.1])]
  unfold isDdl
  rw [hlead]
  decide

theorem checkStatement_symbol (p : Policy) : checkStatement p (c :: s) = schemaProblems p s := by
  unfold checkStatement schemaProblems
  rw [isDdl_symbol hc s, if_neg Bool.false_ne_true]
  exact congrArg (List.filterMap _) (schemaRefs_symbol hc [] s)

theorem trim_symbol : trim (c :: s) = c :: trimEnd s := by
  unfold trim trimStart trimEnd
  rw [List.dropWhile_cons_of_neg (by simp [hc.1]), List.reverse_cons, List.dropWhile_append]
  split
  · rename_i h
    rw [List.isEmpty_iff.mp h, List.dropWhile_cons_of_neg (by simp [hc.1])]
    rfl
  · simp

end

theorem schemaProblems_trimEnd (p : Policy) (s : List Char) :
    schemaProblems p (trimEnd s) = schemaProblems p (trim s) := by
  unfold schemaProblems schemaRefs
  rw [tokens_blocks (trimEnd s), tokens_blocks (trim s), blocks_trimEnd, blocks_trim]

/-- What a statement of DDL is checked for beside its schema references. -/
def ddlProblems (p : Policy) (s : List Char) : List Problem :=
  if isDdl s then
    (formProblems p s).filter (fun x => !(x.isSchema && (schemaProblems p s).contains x)) ++ foreignKeyProblems p s
  else []

theorem checkStatement_append (p : Policy) (s : List Char) :
    checkStatement p s = schemaProblems p s ++ ddlProblems p s := by
  unfold checkStatement ddlProblems
  split
  · exact List.append_assoc ..
  · exact (List.append_nil _).symm

theorem isSchema_of_mem {p : Policy} {s : List Char} {x : Problem} (h : x ∈ schemaProblems p s) :
    x.isSchema = true := by
  obtain ⟨schema, -, hx⟩ := List.mem_filterMap.mp h
  exact Policy.isSchema_of_checkSchema hx

theorem ddlProblems_eq_nil_iff (p : Policy) (s : List Char) :
    ddlProblems p s = [] ↔ (isDdl s = true →
      (∃ st, detect s = some st ∧ ∀ x ∈ st.check p, x ∈ schemaProblems p s) ∧
        ∀ target ∈ foreignKeys s, p.Approves target) := by
  have hform : (formProblems p s).filter (fun x => !(x.isSchema && (schemaProblems p s).contains x)) = [] ↔
      ∃ st, detect s = some st ∧ ∀ x ∈ st.check p, x ∈ schemaProblems p s := by
    have hkept (x : Problem) :
        ¬ (!(x.isSchema && (schemaProblems p s).contains x)) = true ↔ x ∈ schemaProblems p s := by
      simpa using isSchema_of_mem
    simp only [List.filter_eq_nil_iff, hkept]
    unfold formProblems
    cases detect s with
    | none =>
      simp only [Option.elim_none, List.forall_mem_singleton, reduceCtorEq, false_and, exists_false, iff_false]
      exact fun h => absurd (isSchema_of_mem h) (by decide)
    | some st => simp
  unfold ddlProblems
  split
  · rename_i h
    rw [List.append_eq_nil_iff, hform, foreignKeyProblems_eq_nil_iff]
    exact ⟨fun h' _ => h', fun h' => h' h⟩
  · rename_i h
    exact iff_of_true rfl fun h' => absurd h' h

/-! ## Marked texts -/

/-- The text with a byte order mark before it. -/
def marked (text : String) : String := "\uFEFF" ++ text

/-- The text of the first statement, or no text where the first semicolon follows only blanks. -/
def firstStatement (text : String) : List Char := trim ((pieces (· == ';') (normal text.toList)).headD [])

theorem isSymbol_mark : IsSymbol '\uFEFF' := by decide +kernel

theorem lower_mark (s : List Char) : lower ('\uFEFF' :: s) = '\uFEFF' :: lower s := by
  have hcased : (if isCaseIgnorable '\uFEFF' = true then false else isCased '\uFEFF') = false := by decide +kernel
  have hchar : lowerChar '\uFEFF' = ['\uFEFF'] := by decide +kernel
  rw [lower, lowerAfter, hcased, hchar]
  rfl

theorem normal_marked (text : String) : normal (marked text).toList = '\uFEFF' :: normal text.toList := by
  have htext : (marked text).toList = '\uFEFF' :: text.toList := by simp [marked]
  rw [normal, htext, strip_cons_of (by decide), lower_mark, normal]

theorem checkStatement_nil (p : Policy) : checkStatement p [] = [] := rfl

theorem flatMap_problems (p : Policy) (sql : String) :
    (check p sql).flatMap Checked.problems =
      (pieces (· == ';') (normal sql.toList)).flatMap fun s => checkStatement p (trim s) := by
  unfold check statements
  generalize pieces (· == ';') (normal sql.toList) = l
  induction l with
  | nil => rfl
  | cons s l ih =>
    rw [List.map_cons, List.filter_cons, List.flatMap_cons, ← ih]
    split
    · rfl
    · rename_i h
      have hs : trim s = [] := by simpa using h
      rw [hs, checkStatement_nil, List.nil_append]

/-- Only the first statement behind a mark is checked otherwise, and that for its schema references. -/
theorem problems_marked (p : Policy) (text : String) : ∃ rest,
    (check p text).flatMap Checked.problems = checkStatement p (firstStatement text) ++ rest ∧
      (check p (marked text)).flatMap Checked.problems = schemaProblems p (firstStatement text) ++ rest := by
  rw [flatMap_problems, flatMap_problems, normal_marked]
  unfold firstStatement
  have hne := pieces_ne_nil (· == ';') (normal text.toList)
  have hmark : pieces (· == ';') ('\uFEFF' :: normal text.toList) =
      (pieces (· == ';') (normal text.toList)).modifyHead ('\uFEFF' :: ·) := by
    rw [pieces, if_neg (by decide)]
  rw [hmark]
  cases h : pieces (· == ';') (normal text.toList) with
  | nil => exact absurd h hne
  | cons s l =>
    refine ⟨l.flatMap fun s => checkStatement p (trim s), rfl, ?_⟩
    -- blanks behind the mark are no longer at the front of the statement, so only its end is trimmed
    have hs : checkStatement p (trim ('\uFEFF' :: s)) = schemaProblems p (trim s) := by
      rw [trim_symbol isSymbol_mark, checkStatement_symbol isSymbol_mark, schemaProblems_trimEnd]
    rw [List.modifyHead_cons, List.flatMap_cons, hs]
    rfl

end Sql

/-! ## Issues of a source -/

/-- The issues of a source, without the statements that have them. -/
def Source.issues (p : Policy) (s : Source) : List Issue := (s.scan p).2.map Violation.issue

theorem Source.issues_eq (p : Policy) (s : Source) :
    s.issues p = ((Sql.check p s.text).flatMap Sql.Checked.problems).map Problem.issue := by
  unfold Source.issues Source.scan
  simp [List.map_flatMap, Function.comp_def]

/-- **Byte order marks.** A mark is read as a part of the text. It takes from the first statement all checks but that
of its schema references and changes no other, so the issues are the same exactly if the first statement is no DDL or
is a recognized statement that has no problem but with schemas that it refers to, and approved foreign keys. -/
theorem issues_marked (p : Policy) (path text : String) :
    let first := Sql.firstStatement text
    let issues := (Source.mk path text).issues p
    let issues' := (Source.mk path (Sql.marked text)).issues p
    decodeText (Sql.marked text).toUTF8 = .ok (Sql.marked text) ∧
      (∃ rest, issues = (Sql.checkStatement p first).map Problem.issue ++ rest ∧
        issues' = (Sql.schemaProblems p first).map Problem.issue ++ rest) ∧
      (issues' = issues ↔ (Sql.isDdl first = true →
        (∃ st, Sql.detect first = some st ∧ ∀ x ∈ st.check p, x ∈ Sql.schemaProblems p first) ∧
          ∀ target ∈ Sql.foreignKeys first, p.Approves target)) := by
  intro first issues issues'
  obtain ⟨rest, h, h'⟩ := Sql.problems_marked p text
  have hissues : issues = (Sql.checkStatement p first).map Problem.issue ++ rest.map Problem.issue := by
    rw [← List.map_append, ← h]
    exact Source.issues_eq p _
  have hissues' : issues' = (Sql.schemaProblems p first).map Problem.issue ++ rest.map Problem.issue := by
    rw [← List.map_append, ← h']
    exact Source.issues_eq p _
  refine ⟨decodeText_toUTF8 _, ⟨_, hissues, hissues'⟩, ?_⟩
  rw [← Sql.ddlProblems_eq_nil_iff, hissues, hissues', Sql.checkStatement_append, List.append_left_inj, List.map_append,
    List.self_eq_append_right, List.map_eq_nil_iff]

/-- A table without the prefix is no issue behind a mark. -/
theorem issues_marked_table :
    let p : Policy := ⟨"cb_", ["public"], ["auth"], []⟩
    let text := "create table widgets (id int);"
    (Source.mk "a.sql" text).issues p = [⟨.missingPrefix, "missing required prefix for table: widgets"⟩] ∧
      (Source.mk "a.sql" (Sql.marked text)).issues p = [] := by
  decide +kernel

end MigrationLint
