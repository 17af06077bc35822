import MigrationLint.Sql.Form
import MigrationLint.Sql.Normal
import MigrationLint.Sql.SchemaRef

/-!
# Checking SQL against a policy

Every schema reference of a statement is checked. A DDL statement is checked for the names of its form
too, or rejected if it has none, and for the targets of its foreign keys. A schema problem of the form
is left out if the references show it already.
-/

namespace MigrationLint.Sql

open Text

def schemaProblems (p : Policy) (s : List Char) : List Problem :=
  (schemaRefs s).filterMap fun schema => p.checkSchema (some schema)

def formProblems (p : Policy) (s : List Char) : List Problem :=
  (detect s).elim [.unrecognizedDdl] (·.check p)

/-- The targets of the foreign keys in a statement. -/
def foreignKeys (s : List Char) : List String :=
  match words s with
  | w :: ws => (clauses "references".toList [] w ws).map .ofList
  | [] => []

def foreignKeyProblems (p : Policy) (s : List Char) : List Problem :=
  (foreignKeys s).flatMap (p.checkName "foreign key")

def checkStatement (p : Policy) (s : List Char) : List Problem :=
  let found := schemaProblems p s
  if isDdl s then
    found ++ (formProblems p s).filter (fun x => !(x.isSchema && found.contains x)) ++ foreignKeyProblems p s
  else found

/-- A statement of a text and what is wrong with it. -/
structure Checked where
  statement : String
  problems : List Problem
  deriving DecidableEq, Repr

def check (p : Policy) (sql : String) : List Checked :=
  (statements (normal sql.toList)).map fun s => ⟨.ofList s, checkStatement p s⟩

end MigrationLint.Sql
