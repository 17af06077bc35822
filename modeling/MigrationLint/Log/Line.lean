import MigrationLint.Log.Event

/-!
# Lines of the log

The line of an event tells its time, its level, which all events share, the part of the program that it
comes from, and what happened. Texts that a user gives stand in it as they are, line breaks included; the
texts of a policy are quoted.
-/

namespace MigrationLint

/-! ## Values -/

def quotedChar (plain : Char → Bool) (c : Char) : String :=
  if c = '\x22' then "\\\x22"
  else if c = '\\' then "\\\\"
  else if c = '\n' then "\\n"
  else if c = '\r' then "\\r"
  else if c = '\t' then "\\t"
  else if c = '\x00' then "\\0"
  else if plain c then c.toString
  else "\\u\x7b" ++ String.ofList (Nat.toDigits 16 c.toNat) ++ "\x7d"

/-- A text in quotes; characters that are not plain are written by their numbers. -/
def quotedText (plain : Char → Bool) (s : String) : String :=
  "\x22" ++ String.join (s.toList.map (quotedChar plain)) ++ "\x22"

def braced (items : List String) : String := "\x7b" ++ ", ".intercalate items ++ "\x7d"

def Policy.shown (plain : Char → Bool) (p : Policy) : String :=
  let set (names : List String) := braced (names.map (quotedText plain))
  "Policy \x7b required_prefix: " ++ quotedText plain p.requiredPrefix ++
    ", allowed_schemas: " ++ set p.allowedSchemas ++ ", blocked_schemas: " ++ set p.blockedSchemas ++
    ", allowed_extensions: " ++ set p.allowedExtensions ++ " \x7d"

def Code.variant : Code → String
  | blockedSchema => "BlockedSchema"
  | schemaNotAllowlisted => "SchemaNotAllowlisted"
  | missingPrefix => "MissingPrefix"
  | unrecognizedName => "UnrecognizedName"
  | extensionNotSupported => "ExtensionNotSupported"
  | extensionNotAllowed => "ExtensionNotAllowed"
  | grantRevoke => "GrantRevoke"
  | unrecognizedDdl => "UnrecognizedDdl"

/-! ## Lines -/

namespace Event

/-- The part of the program that an event comes from. -/
def target : Event → String
  | policyResolved .. => "migration_guard"
  | filesDiscovered .. => "migration_guard_engine::discovery"
  | fileChecked .. => "migration_guard_engine::scanner"
  | scanComplete .. => "migration_guard_engine::scanner"
  | violationsCounted .. => "migration_guard"
  | reportSaved .. => "migration_guard"

def message : Event → String
  | policyResolved .. => "policy resolved"
  | filesDiscovered .. => "discovered migration files"
  | fileChecked .. => "checked migration file"
  | scanComplete .. => "scan complete"
  | violationsCounted .. => "violations by code"
  | reportSaved .. => "report saved"

def fields (plain : Char → Bool) : Event → List (String × String)
  | policyResolved config policy => [("config", config), ("policy", policy.shown plain)]
  | filesDiscovered dir count => [("dir", dir), ("count", toString count)]
  | fileChecked file statements violations =>
    [("file", file), ("statements", toString statements), ("violations", toString violations)]
  | scanComplete files statements violations =>
    [("files", toString files), ("statements", toString statements), ("violations", toString violations)]
  | violationsCounted counts =>
    [("counts", braced (counts.map fun c => c.1.variant ++ ": " ++ toString c.2))]
  | reportSaved path => [("path", path)]

def line (plain : Char → Bool) (time : String) (e : Event) : String :=
  time ++ " DEBUG " ++ e.target ++ ": " ++ e.message ++
    String.join ((e.fields plain).map fun f => " " ++ f.1 ++ "=" ++ f.2) ++ "\n"

end Event

end MigrationLint
