import MigrationLint.Text.Lower
import MigrationLint.Text.Pieces

/-!
# Settings

Settings hold what a source of configuration says about a policy: a policy file or the environment.
A field that is absent leaves the decision to the source below.
-/

namespace MigrationLint

open Text

structure Settings where
  requiredPrefix : Option String
  allowedSchemas : Option (List String)
  blockedSchemas : Option (List String)
  allowedExtensions : Option (List String)
  deriving DecidableEq, Repr

namespace Settings

def empty : Settings := ⟨none, none, none, none⟩

/-- Each field that the first settings hold replaces that of the second. -/
def onTopOf (e f : Settings) : Settings where
  requiredPrefix := e.requiredPrefix.or f.requiredPrefix
  allowedSchemas := e.allowedSchemas.or f.allowedSchemas
  blockedSchemas := e.blockedSchemas.or f.blockedSchemas
  allowedExtensions := e.allowedExtensions.or f.allowedExtensions

/-- The items of a comma list, trimmed and in lowercase; blank items are left out. -/
def commaList (s : String) : List String :=
  ((pieces (· == ',') s.toList).map fun item => String.ofList (lower (trim item))).filter (· ≠ "")

/-! ## Environment variables -/

def prefixVariable : String := "MIGRATION_GUARD_PREFIX"

def allowedVariable : String := "MIGRATION_GUARD_ALLOWED_SCHEMAS"

def blockedVariable : String := "MIGRATION_GUARD_BLOCKED_SCHEMAS"

def extensionsVariable : String := "MIGRATION_GUARD_ALLOWED_EXTENSIONS"

/-- Settings from environment variables. An empty variable is no setting. -/
def ofLookup (lookup : String → Option String) : Settings :=
  let get key := (lookup key).filter (· ≠ "")
  { requiredPrefix := get prefixVariable
    allowedSchemas := (get allowedVariable).map commaList
    blockedSchemas := (get blockedVariable).map commaList
    allowedExtensions := (get extensionsVariable).map commaList }

end Settings

end MigrationLint
