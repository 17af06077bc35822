import MigrationLint.Json.Reader
import MigrationLint.Policy.Basic

/-!
# Policy files

A policy file is a record of settings. A field may miss or be null.
-/

namespace MigrationLint

namespace Settings

def fieldNames : List String := ["requiredPrefix", "allowedSchemas", "blockedSchemas", "allowedExtensions"]

def ofJson? (j : Json) : Option Settings := do
  match ← j.fields? fieldNames with
  | [required, allowed, blocked, extensions] =>
    some
      { requiredPrefix := ← Json.optional? Json.string? required
        allowedSchemas := ← Json.optional? (Json.list? Json.string?) allowed
        blockedSchemas := ← Json.optional? (Json.list? Json.string?) blocked
        allowedExtensions := ← Json.optional? (Json.list? Json.string?) extensions }
  | _ => none

/-- The settings of a policy file. What is said of a text that is none, `refusal` words. -/
def ofText (refusal : String → String) (text : String) : Except PolicyError Settings :=
  match (Json.parse? text.toList).bind ofJson? with
  | some s => .ok s
  | none => .error (.invalidFile (refusal text))

end Settings

end MigrationLint
