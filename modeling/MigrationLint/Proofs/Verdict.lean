import MigrationLint.Proofs.Names
import MigrationLint.Sql.Check

/-!
# Clean statements

A statement has no problem exactly when the policy accepts all that is read from it
(`checkStatement_eq_nil_iff`). Leaving out problems that the schema references show already never turns a
statement clean: where something is left out, a reference has a problem.
-/

namespace MigrationLint.Sql

/-- The statements whose names a policy approves. -/
def Statement.Accepted (p : Policy) : Statement → Prop
  | table name => p.Approves name
  | dropTrigger trigger on => p.Approves trigger ∧ p.Approves on
  | view name => p.Approves name
  | createIndex index on => p.Approves index ∧ p.Approves on
  | dropIndex index => p.Approves index
  | sequence name => p.Approves name
  | function name => p.Approves name
  | type name => p.Approves name
  | createTrigger trigger on => p.Approves trigger ∧ p.Approves on
  | commentOnObject _ name => p.Approves name
  | createExtension extension => extension ∈ p.allowedExtensions
  | commentOnColumn name => p.Approves name
  | commentOnFunction name => p.Approves name
  | grantRevoke => False
  | policy name on => p.Approves name ∧ p.Approves on

theorem Statement.check_eq_nil_iff (p : Policy) (st : Statement) : st.check p = [] ↔ st.Accepted p := by
  cases st <;>
    simp [Statement.check, Statement.names, Statement.Accepted, Policy.checkName_eq_nil_iff,
      Policy.checkExtension_eq_none_iff]

theorem schemaProblems_eq_nil_iff (p : Policy) (s : List Char) :
    schemaProblems p s = [] ↔ ∀ schema ∈ schemaRefs s, schema ∈ p.allowedSchemas := by
  simp [schemaProblems, List.filterMap_eq_nil_iff, Policy.checkSchema_eq_none_iff]

theorem formProblems_eq_nil_iff (p : Policy) (s : List Char) :
    formProblems p s = [] ↔ ∃ st, detect s = some st ∧ st.Accepted p := by
  unfold formProblems
  cases h : detect s with
  | none => simp
  | some st => simp [Statement.check_eq_nil_iff]

theorem foreignKeyProblems_eq_nil_iff (p : Policy) (s : List Char) :
    foreignKeyProblems p s = [] ↔ ∀ target ∈ foreignKeys s, p.Approves target := by
  simp [foreignKeyProblems, Policy.checkName_eq_nil_iff]

theorem checkStatement_ddl_eq_nil_iff {p : Policy} {s : List Char} (h : isDdl s = true) :
    checkStatement p s = [] ↔ schemaProblems p s = [] ∧ formProblems p s = [] ∧ foreignKeyProblems p s = [] := by
  rw [checkStatement, if_pos h, List.append_eq_nil_iff, List.append_eq_nil_iff, and_assoc]
  refine and_congr_right fun hs => and_congr_left fun _ => ?_
  simp [hs, List.eq_nil_iff_forall_not_mem]

/-- **The clean verdict.** A statement is clean when every schema it refers to is allowed and, if it is DDL,
it is a recognized statement that the policy accepts with foreign keys that the policy approves. -/
theorem checkStatement_eq_nil_iff (p : Policy) (s : List Char) :
    checkStatement p s = [] ↔
      (∀ schema ∈ schemaRefs s, schema ∈ p.allowedSchemas) ∧
        (isDdl s = false ∨
          (∃ st, detect s = some st ∧ st.Accepted p) ∧ ∀ target ∈ foreignKeys s, p.Approves target) := by
  cases h : isDdl s with
  | false =>
    rw [checkStatement, h]
    simp [schemaProblems_eq_nil_iff]
  | true =>
    rw [checkStatement_ddl_eq_nil_iff h, schemaProblems_eq_nil_iff, formProblems_eq_nil_iff,
      foreignKeyProblems_eq_nil_iff]
    simp

end MigrationLint.Sql
