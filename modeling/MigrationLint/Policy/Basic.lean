import MigrationLint.Files.Error
import MigrationLint.Policy.Settings

/-!
# Policies

A policy names the prefix that objects must have, the schemas that may be referred to, the schemas
that are reported as blocked, and the extensions that may be created. All of it is lowercase.
-/

namespace MigrationLint

open Text

def insertSorted (x : String) : List String → List String
  | [] => [x]
  | y :: ys => if x < y then x :: y :: ys else if x = y then y :: ys else y :: insertSorted x ys

/-- The lowercase of the strings, sorted and each once. -/
def lowercaseSet (xs : List String) : List String := (xs.map lowercase).foldr insertSorted []

inductive PolicyError where
  | missingPrefix
  | invalidFile (reason : String)
  | unreadable (path : String) (error : FileError)
  deriving DecidableEq, Repr

def PolicyError.message : PolicyError → String
  | missingPrefix => "requiredPrefix is missing (set in config or MIGRATION_GUARD_PREFIX)"
  | invalidFile reason => "failed to parse config: " ++ reason
  | unreadable path error => "failed to read config " ++ path ++ ": " ++ error.message

structure Policy where
  requiredPrefix : String
  allowedSchemas : List String
  blockedSchemas : List String
  allowedExtensions : List String
  deriving DecidableEq, Repr

namespace Policy

/-- The policy that allows the schema `public` and no extension. -/
def new (required : String) : Except PolicyError Policy :=
  let name := String.ofList (lower (trim required.toList))
  if name = "" then .error .missingPrefix else .ok ⟨name, lowercaseSet ["public"], [], []⟩

def withAllowedSchemas (p : Policy) (xs : List String) : Policy :=
  { p with allowedSchemas := lowercaseSet xs }

def withBlockedSchemas (p : Policy) (xs : List String) : Policy :=
  { p with blockedSchemas := lowercaseSet xs }

def withAllowedExtensions (p : Policy) (xs : List String) : Policy :=
  { p with allowedExtensions := lowercaseSet xs }

/-- The policy that settings describe; without a prefix there is none. -/
def ofSettings (s : Settings) : Except PolicyError Policy :=
  (new (s.requiredPrefix.getD "")).map fun p =>
    let p := s.allowedSchemas.elim p p.withAllowedSchemas
    let p := s.blockedSchemas.elim p p.withBlockedSchemas
    s.allowedExtensions.elim p p.withAllowedExtensions

def allowsSchema (p : Policy) (schema : String) : Bool := p.allowedSchemas.contains schema

def blocksSchema (p : Policy) (schema : String) : Bool := p.blockedSchemas.contains schema

def hasPrefix (p : Policy) (name : String) : Bool := p.requiredPrefix.toList.isPrefixOf name.toList

end Policy

end MigrationLint
