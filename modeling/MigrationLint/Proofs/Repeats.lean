import MigrationLint.Proofs.Denials
import MigrationLint.Proofs.Relaxing

/-!
# Repeated schema problems

A problem of a form is left out if a schema reference has the same issue. The issue of a schema problem tells
the schema (`Problem.issue_injective`), so all that is left out are repeats: every issue of the references, the
form and the foreign keys stays, and all but those repeats as often as it was found (`count_issues`).
-/

namespace MigrationLint

/-- An issue about the schema, under either of the two codes. -/
def Issue.IsAbout (i : Issue) (schema : String) : Prop :=
  i = (Problem.blockedSchema schema).issue ∨ i = (Problem.schemaNotAllowlisted schema).issue

namespace Problem

theorem issue_injective {x y : Problem} (hx : x.isSchema = true) (h : y.issue = x.issue) : y = x := by
  have hcode : y.code = x.code := congrArg Issue.code h
  have hmessage : y.message = x.message := congrArg Issue.message h
  cases x with
  | blockedSchema schema =>
    cases y with
    | blockedSchema schema' => rw [(String.append_right_inj _).mp hmessage]
    | _ => cases hcode
  | schemaNotAllowlisted schema =>
    cases y with
    | schemaNotAllowlisted schema' => rw [(String.append_right_inj _).mp hmessage]
    | _ => cases hcode
  | _ => cases hx

theorem issue_mem_map_iff {x : Problem} (hx : x.isSchema = true) {l : List Problem} :
    x.issue ∈ l.map issue ↔ x ∈ l := by
  rw [List.mem_map]
  constructor
  · rintro ⟨y, hy, h⟩
    rw [← issue_injective hx h]
    exact hy
  · exact fun h => ⟨x, h, rfl⟩

/-- An issue about a schema is that of a problem with this schema. -/
theorem exists_of_isAbout {i : Issue} {schema : String} (h : i.IsAbout schema) :
    ∃ x : Problem, x.issue = i ∧ x.schema? = some schema ∧ x.isSchema = true := by
  rcases h with rfl | rfl
  · exact ⟨.blockedSchema schema, rfl, rfl, rfl⟩
  · exact ⟨.schemaNotAllowlisted schema, rfl, rfl, rfl⟩

end Problem

namespace Sql

theorem count_filter_ite {α : Type} [DecidableEq α] (keep : α → Bool) (l : List α) (a : α) :
    (l.filter keep).count a = if keep a then l.count a else 0 := by
  split
  · rename_i h
    exact List.count_filter h
  · rename_i h
    rw [List.count_eq_zero, List.mem_filter]
    exact fun hm => h hm.2

/-- The issue is about a schema and among those of the references. -/
def Repeats (scanned : List Issue) (i : Issue) : Prop := i.code ∈ schemaCodes ∧ i ∈ scanned

instance (scanned : List Issue) (i : Issue) : Decidable (Repeats scanned i) := by unfold Repeats; infer_instance

section
variable (p : Policy) {s : List Char} {st : Statement}

theorem repeats_issue_iff {x : Problem} {l : List Problem} :
    Repeats (l.map Problem.issue) x.issue ↔ (x.isSchema && l.contains x) = true := by
  unfold Repeats
  rw [Bool.and_eq_true, x.isSchema_iff, List.contains_iff_mem]
  exact and_congr_right fun hx => Problem.issue_mem_map_iff (x.isSchema_iff.mpr hx)

/-- What is left out of the issues of a form is told by the issues alone. -/
theorem issues_eq (hst : detect s = some st) :
    (checkStatement p s).map Problem.issue =
      (schemaProblems p s).map Problem.issue ++
        ((st.check p).map Problem.issue).filter (¬ Repeats ((schemaProblems p s).map Problem.issue) ·) ++
        (foreignKeyProblems p s).map Problem.issue := by
  have hform : formProblems p s = st.check p := by
    unfold formProblems
    rw [hst, Option.elim_some]
  have hkept : (st.check p).filter (fun x => !(x.isSchema && (schemaProblems p s).contains x)) =
      (st.check p).filter ((¬ Repeats ((schemaProblems p s).map Problem.issue) ·) ∘ Problem.issue) := by
    apply List.filter_congr
    intro x _
    simp [repeats_issue_iff]
  unfold checkStatement
  rw [if_pos (isDdl_of_detect hst), hform, List.map_append, List.map_append, hkept, List.filter_map]

/-- Under the code and text of an issue the form has the problem that a reference to the schema has. -/
theorem mem_scanned_iff {i : Issue} {schema : String} (hi : i.IsAbout schema)
    (hm : i ∈ (st.check p).map Problem.issue) :
    i ∈ (schemaProblems p s).map Problem.issue ↔ schema ∈ schemaRefs s := by
  obtain ⟨x, rfl, hschema, hx⟩ := Problem.exists_of_isAbout hi
  rw [Problem.issue_mem_map_iff hx] at hm ⊢
  exact mem_schemaProblems_iff p s hschema (st.tells_of_check p hm)

/-- **Only repeats are left out.** An issue stays as often as the references, the form and the foreign keys have
it, but for those of the form about a schema that a reference has an issue with already. -/
theorem count_issues (hst : detect s = some st) :
    let scanned := (schemaProblems p s).map Problem.issue
    let own := (st.check p).map Problem.issue
    let keys := (foreignKeyProblems p s).map Problem.issue
    let issues := (checkStatement p s).map Problem.issue
    (∀ i, issues.count i = scanned.count i + keys.count i +
        if i.code ∈ schemaCodes ∧ i ∈ scanned then 0 else own.count i) ∧
      (∃ kept, issues = scanned ++ kept ++ keys ∧ kept.Sublist own ∧
        ∀ schema, ∀ i ∈ own, i.IsAbout schema → (i ∈ kept ↔ schema ∉ schemaRefs s)) ∧
      ∀ i, i ∈ issues ↔ i ∈ scanned ∨ i ∈ own ∨ i ∈ keys := by
  intro scanned own keys issues
  have hissues : issues = scanned ++ own.filter (¬ Repeats scanned ·) ++ keys := issues_eq p hst
  refine ⟨fun i => ?_, ⟨own.filter (¬ Repeats scanned ·), hissues, List.filter_sublist, ?_⟩, fun i => ?_⟩
  · rw [hissues, List.count_append, List.count_append, count_filter_ite, Nat.add_right_comm]
    by_cases hi : Repeats scanned i
    · simp [hi, if_pos (show i.code ∈ schemaCodes ∧ i ∈ scanned from hi)]
    · simp [hi, if_neg (show ¬ (i.code ∈ schemaCodes ∧ i ∈ scanned) from hi)]
  · intro schema i hm hi
    have hcode : i.code ∈ schemaCodes := by rcases hi with rfl | rfl <;> simp [schemaCodes, Problem.issue, Problem.code]
    rw [← mem_scanned_iff p hi hm, List.mem_filter]
    simp [hm, Repeats, hcode, scanned]
  · rw [hissues, List.mem_append, List.mem_append, List.mem_filter]
    by_cases hi : Repeats scanned i
    · simp [hi, hi.2]
    · simp [hi, or_assoc]

end

/-- An index whose schema no reference shows, on a table whose schema the references show twice. -/
theorem count_issues_index :
    let p : Policy := ⟨"cb_", ["public"], ["auth"], []⟩
    let s := "create index 1st.t on auth.u (v) references auth.u".toList
    let issues := (checkStatement p s).map Problem.issue
    let blocked := (Problem.blockedSchema "auth").issue
    let unlisted := (Problem.schemaNotAllowlisted "1st").issue
    detect s = some (.createIndex "1st.t" "auth.u") ∧ issues.count blocked = 2 + 1 + 0 ∧
      issues.count unlisted = 0 + 0 + 1 := by
  intro p s issues blocked unlisted
  have hst : detect s = some (.createIndex "1st.t" "auth.u") := by decide +kernel
  have hcount := (count_issues p hst).1
  refine ⟨hst, (hcount blocked).trans ?_, (hcount unlisted).trans ?_⟩
  · decide +kernel
  · decide +kernel

end Sql

end MigrationLint
