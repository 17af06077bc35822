import MigrationLint.Problem
import MigrationLint.Policy.Basic

/-!
# Qualified names under a policy

A name is `name` or `schema.name`. A name without a last part, or with a second dot, is not
recognized; any other is checked for its schema first and then for its prefix.
-/

namespace MigrationLint

open Text

structure QualifiedName where
  schema : Option String
  name : Option String
  deriving DecidableEq, Repr

def filled? (s : List Char) : Option String := if s.isEmpty then none else some (.ofList s)

def QualifiedName.parse? (raw : String) : Option QualifiedName :=
  match pieces (· == '.') raw.toList with
  | [name] => some ⟨none, filled? name⟩
  | [schema, name] => some ⟨filled? schema, filled? name⟩
  | _ => none

namespace Policy

/-- The allowlist decides first; a name without a schema is not checked. -/
def checkSchema (p : Policy) : Option String → Option Problem
  | none => none
  | some schema =>
    if p.allowsSchema schema then none
    else if p.blocksSchema schema then some (.blockedSchema schema)
    else some (.schemaNotAllowlisted schema)

def checkPrefix (p : Policy) (context : String) (name : Option String) : Option Problem :=
  if name.any p.hasPrefix then none else some (.missingPrefix context name)

def checkName (p : Policy) (context raw : String) : List Problem :=
  match QualifiedName.parse? raw with
  | some ⟨schema, some name⟩ => (p.checkSchema schema).toList ++ (p.checkPrefix context name).toList
  | _ => [.unrecognizedName context raw]

/-- No extension may be created while none is allowed. -/
def checkExtension (p : Policy) (extension : String) : Option Problem :=
  if p.allowedExtensions.isEmpty then some .extensionNotSupported
  else if p.allowedExtensions.contains extension then none
  else some (.extensionNotAllowed extension)

end Policy

end MigrationLint
