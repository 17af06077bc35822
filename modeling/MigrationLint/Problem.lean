/-!
# Problems and issues

A problem says what is wrong with a statement. As an issue it has a stable code, which reports and
filters rely on, and a message that names what is at fault.
-/

namespace MigrationLint

inductive Code where
  | blockedSchema
  | schemaNotAllowlisted
  | missingPrefix
  | unrecognizedName
  | extensionNotSupported
  | extensionNotAllowed
  | grantRevoke
  | unrecognizedDdl
  deriving DecidableEq, Repr

namespace Code

/-- All codes, in the order in which they are counted. -/
def all : List Code :=
  [blockedSchema, schemaNotAllowlisted, missingPrefix, unrecognizedName, extensionNotSupported,
   extensionNotAllowed, grantRevoke, unrecognizedDdl]

def name : Code → String
  | blockedSchema => "BLOCKED_SCHEMA"
  | schemaNotAllowlisted => "SCHEMA_NOT_ALLOWLISTED"
  | missingPrefix => "MISSING_PREFIX"
  | unrecognizedName => "UNRECOGNIZED_NAME"
  | extensionNotSupported => "EXTENSION_NOT_SUPPORTED"
  | extensionNotAllowed => "EXTENSION_NOT_ALLOWED"
  | grantRevoke => "GRANT_REVOKE"
  | unrecognizedDdl => "UNRECOGNIZED_DDL"

def ofName? (s : String) : Option Code := all.find? (·.name == s)

/-- The place of a code in the order. -/
def rank (code : Code) : Nat := all.idxOf code

end Code

structure Issue where
  code : Code
  message : String
  deriving DecidableEq, Repr

inductive Problem where
  | blockedSchema (schema : String)
  | schemaNotAllowlisted (schema : String)
  | missingPrefix (context : String) (name : Option String)
  | unrecognizedName (context raw : String)
  | extensionNotSupported
  | extensionNotAllowed (extension : String)
  | grantRevoke
  | unrecognizedDdl
  deriving DecidableEq, Repr

namespace Problem

def code : Problem → Code
  | blockedSchema _ => .blockedSchema
  | schemaNotAllowlisted _ => .schemaNotAllowlisted
  | missingPrefix _ _ => .missingPrefix
  | unrecognizedName _ _ => .unrecognizedName
  | extensionNotSupported => .extensionNotSupported
  | extensionNotAllowed _ => .extensionNotAllowed
  | grantRevoke => .grantRevoke
  | unrecognizedDdl => .unrecognizedDdl

def message : Problem → String
  | blockedSchema schema => "blocked schema reference: " ++ schema
  | schemaNotAllowlisted schema => "schema not allowlisted: " ++ schema
  | missingPrefix context name =>
    "missing required prefix for " ++ context ++ ": " ++ name.getD "<unknown>"
  | unrecognizedName context raw => "unrecognized " ++ context ++ " name: " ++ raw
  | extensionNotSupported => "CREATE EXTENSION is not supported (no allowlist configured)"
  | extensionNotAllowed extension => "extension not allowed: " ++ extension
  | grantRevoke => "GRANT/REVOKE is not supported (blocked by policy)"
  | unrecognizedDdl => "Unrecognized DDL statement (blocked by default)"

def issue (x : Problem) : Issue := ⟨x.code, x.message⟩

/-- A problem about a schema, whichever of the two lists decided it. -/
def isSchema : Problem → Bool
  | blockedSchema _ => true
  | schemaNotAllowlisted _ => true
  | _ => false

end Problem

end MigrationLint
