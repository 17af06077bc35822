/-!
# Command line options

Arguments are read from left to right. An option may be given once, and its value may not be empty.
The first mistake or the first request for the version ends the reading.
-/

namespace MigrationLint.Cli

inductive Flag where
  | explain
  | verbose
  deriving DecidableEq, Repr

inductive Setting where
  | dir
  | config
  | report
  deriving DecidableEq, Repr

/-- What the arguments give. -/
structure Given where
  dir : Option String
  config : Option String
  report : Option String
  explain : Bool
  verbose : Bool
  deriving DecidableEq, Repr

namespace Given

def nothing : Given := ⟨none, none, none, false, false⟩

def setFlag (g : Given) : Flag → Option Given
  | .explain => if g.explain then none else some { g with explain := true }
  | .verbose => if g.verbose then none else some { g with verbose := true }

def setValue (g : Given) (s : Setting) (value : String) : Option Given :=
  if value = "" then none
  else match s with
    | .dir => if g.dir.isSome then none else some { g with dir := some value }
    | .config => if g.config.isSome then none else some { g with config := some value }
    | .report => if g.report.isSome then none else some { g with report := some value }

end Given

/-! ## Arguments -/

inductive Argument where
  | stop
  | version
  | flags (fs : List Flag) (version : Bool)
  | setting (s : Setting) (value : Option String)
  deriving DecidableEq, Repr

def settingOf? (name : String) : Option Setting :=
  if name = "dir" then some .dir
  else if name = "config" then some .config
  else if name = "report" then some .report
  else none

/-- A long option by its name and the value that is attached to it. -/
def long? (name : String) (value : Option String) : Option Argument :=
  match settingOf? name with
  | some s => some (.setting s value)
  | none =>
    if value.isSome then none
    else if name = "explain" then some (.flags [.explain] false)
    else if name = "verbose" then some (.flags [.verbose] false)
    else if name = "version" then some .version
    else none

/-- The letters of short options: flags, up to the one for the version. -/
def short? : List Char → Option (List Flag × Bool)
  | [] => some ([], false)
  | c :: s =>
    if c = 'v' then (short? s).map fun r => (.verbose :: r.1, r.2)
    else if c = 'V' then some ([], true)
    else none

def argument? (a : String) : Option Argument :=
  match a.toList with
  | ['-', '-'] => some .stop
  | '-' :: '-' :: s =>
    let name := String.ofList (s.takeWhile (· != '='))
    match s.dropWhile (· != '=') with
    | _ :: value => long? name (some (.ofList value))
    | [] => long? name none
  | '-' :: c :: s => (short? (c :: s)).map fun r => .flags r.1 r.2
  | _ => none

/-- A word that can be the value of the option before it. -/
def isValue (a : String) : Bool := a.toList.head? != some '-' || a == "-"

/-! ## Requests -/

inductive Request where
  | version
  | scan (g : Given)
  deriving DecidableEq, Repr

/-- The request that the arguments make, unless one of them is wrong. -/
def request? (g : Given) : List String → Option Request
  | [] => some (.scan g)
  | a :: as =>
    match argument? a with
    | none => none
    | some .stop => if as.isEmpty then some (.scan g) else none
    | some .version => some .version
    | some (.flags fs version) =>
      (fs.foldlM Given.setFlag g).bind fun g => if version then some .version else request? g as
    | some (.setting s (some value)) => (g.setValue s value).bind fun g => request? g as
    | some (.setting s none) =>
      match as with
      | value :: as => if isValue value then (g.setValue s value).bind fun g => request? g as else none
      | [] => none

structure Options where
  dir : String
  config : String
  report : Option String
  explain : Bool
  verbose : Bool
  deriving DecidableEq, Repr

def configVariable : String := "MIGRATION_GUARD_CONFIG"

/-- The policy file: as the arguments give it, else as the variable does, which may not be empty. -/
def configPath? (given fromEnv : Option String) : Option String :=
  match given, fromEnv with
  | some path, _ => some path
  | none, some path => if path = "" then none else some path
  | none, none => some "migration-guard.config.json"

def Given.options? (g : Given) (fromEnv : Option String) : Option Options :=
  (configPath? g.config fromEnv).map fun config =>
    ⟨g.dir.getD "supabase/migrations", config, g.report, g.explain, g.verbose⟩

end MigrationLint.Cli
