import MigrationLint.Policy.Name

/-!
# Recognized statements

A recognized statement keeps the names it touches, as they are written. Each name is checked in the
context of the object it stands for.
-/

namespace MigrationLint.Sql

inductive Statement where
  | table (name : String)
  | dropTrigger (trigger table : String)
  | view (name : String)
  | createIndex (index table : String)
  | dropIndex (index : String)
  | sequence (name : String)
  | function (name : String)
  | type (name : String)
  | createTrigger (trigger table : String)
  | commentOnObject (object name : String)
  | createExtension (extension : String)
  | commentOnColumn (table : String)
  | commentOnFunction (name : String)
  | grantRevoke
  | policy (policy table : String)
  deriving DecidableEq, Repr

namespace Statement

/-- The names that the prefix rule is for, each with its context. -/
def names : Statement → List (String × String)
  | table name => [("table", name)]
  | dropTrigger trigger on => [("trigger", trigger), ("table", on)]
  | view name => [("view", name)]
  | createIndex index on => [("index", index), ("table", on)]
  | dropIndex index => [("index", index)]
  | sequence name => [("sequence", name)]
  | function name => [("function", name)]
  | type name => [("type", name)]
  | createTrigger trigger on => [("trigger", trigger), ("table", on)]
  | commentOnObject object name => [(object, name)]
  | createExtension _ => []
  | commentOnColumn name => [("column", name)]
  | commentOnFunction name => [("function", name)]
  | grantRevoke => []
  | policy name on => [("policy", name), ("table", on)]

def check (p : Policy) : Statement → List Problem
  | createExtension extension => (p.checkExtension extension).toList
  | grantRevoke => [.grantRevoke]
  | s => s.names.flatMap fun n => p.checkName n.1 n.2

end Statement

end MigrationLint.Sql
