import MigrationLint.Cli.Options
import MigrationLint.Environment.File
import MigrationLint.Log.Filter
import MigrationLint.Policy.Load
import MigrationLint.Report.Text
import MigrationLint.Scan.Directory

/-!
# Runs

A run loads the policy, scans the directory, writes the report and tells the outcome, in this order;
the first step that fails decides. Nothing is told of the violations unless all steps succeed. Before the
outcome the log is told, as far as it is asked for. The outcome is told without colors, as it is where no
terminal reads it.
-/

namespace MigrationLint.Cli

structure Outcome where
  exit : Nat
  stdout : String
  stderr : String
  deriving DecidableEq, Repr

inductive Failure where
  | policy (error : PolicyError)
  | scan (error : ScanError)
  | report (path : String) (error : FileError)
  deriving DecidableEq, Repr

def Failure.message : Failure → String
  | policy error => error.message
  | scan error => error.fullMessage
  | report path error => "failed to write report " ++ path ++ ": " ++ error.message

/-! ## Logs -/

/-- The texts of a run that are not its own. -/
structure Wording where
  /-- Why a text is no policy file. -/
  refusal : String → String
  /-- The events that a filter lets through, if the text is one. -/
  filter? : String → Option (Event → Bool)
  /-- The line of an event that follows so many others; it tells the time. -/
  line : Nat → Event → String

/-- Words for a run that does all its work at the same time and tells it without colors. -/
def Wording.atTime (time : String) (plain : Char → Bool) (refusal : String → String) : Wording where
  refusal := refusal
  filter? := LogFilter.read?
  line _ e := e.line plain time

def filterVariable : String := "RUST_LOG"

/-- The lines of the events that are asked for. All events are details: a verbose run tells them all, and
without a filter none is told. -/
def Wording.log (w : Wording) (verbose : Bool) (filter : Option String) (events : List Event) : String :=
  let told := if verbose then fun _ => true else (filter.bind w.filter?).getD fun _ => false
  String.join ((events.zipIdx.filter fun e => told e.1).map fun e => w.line e.2 e.1)

/-! ## Outcomes -/

def counted (n : Nat) (noun : String) : String :=
  toString n ++ " " ++ noun ++ if n = 1 then "" else "s"

def violationLines (explain : Bool) (v : Violation) : String :=
  "- " ++ v.display ++ "\n" ++ if explain then "  statement: " ++ v.statement ++ "\n" else ""

def Outcome.usage : Outcome := ⟨2, "", "error: usage\n"⟩

def Outcome.version : Outcome := ⟨0, "migration-guard 0.1.0\n", ""⟩

def Outcome.ofFailure (f : Failure) : Outcome := ⟨2, "", "migration-guard: " ++ f.message ++ "\n"⟩

def Outcome.ofReport (explain : Bool) (r : Report) : Outcome :=
  if r.clean then ⟨0, "migration-guard: OK (" ++ counted r.filesScanned "file" ++ ")\n", ""⟩
  else
    let header := "migration-guard: failed (" ++ counted r.issueCount "issue" ++ ")\n"
    ⟨1, "", header ++ String.join (r.violations.map (violationLines explain))⟩

def Outcome.ofResult (explain : Bool) : Except Failure Report → Outcome
  | .ok r => .ofReport explain r
  | .error f => .ofFailure f

def Outcome.after (log : String) (out : Outcome) : Outcome := { out with stderr := log ++ out.stderr }

/-! ## Steps -/

variable {m : Type → Type} [Monad m]

/-- Looks for the environment file in a folder and then in so many folders above it. A folder of that name
is passed over; a file that cannot be reached ends the search. -/
def findEnvironment (fs : Files m) : Nat → String → m (Option ByteArray)
  | 0, folder => do return (← fs.read (folder ++ ".env")).toOption
  | above + 1, folder => do
    match ← fs.read (folder ++ ".env") with
    | .ok bytes => return some bytes
    | .error e =>
      if e = .notFound ∨ e = .isDirectory then findEnvironment fs above (folder ++ "../") else return none

def environmentFile (fs : Files m) : m (Option ByteArray) := do findEnvironment fs (← fs.depth) ""

/-- The environment with the variables of the environment file, if there is one. -/
def loadEnvironment (fs : Files m) (env : Environment) : m Environment := do
  return (← environmentFile fs).elim env env.load

def writeReport (fs : Files m) (r : Report) : Option String → m (Except Failure Unit)
  | none => return .ok ()
  | some path => do
    match ← fs.write path r.text.toUTF8 with
    | .error e => return .error (.report path e)
    | .ok () =>
      fs.log (.reportSaved path)
      return .ok ()

/-- All steps of a scan; `timestamp` is the time of the report. -/
def scan (fs : Files m) (refusal : String → String) (env : Environment) (timestamp : String) (o : Options) :
    m (Except Failure Report) := do
  match ← Policy.load fs refusal o.config (Settings.ofLookup env.get?) with
  | .error e => return .error (.policy e)
  | .ok p =>
    fs.log (.policyResolved o.config p)
    match ← scanDirectory fs p timestamp o.dir with
    | .error e => return .error (.scan e)
    | .ok r =>
      fs.log (.violationsCounted r.countsByCode)
      match ← writeReport fs r o.report with
      | .error f => return .error f
      | .ok () => return .ok r

def runOptions (fs : Files m) (w : Wording) (env : Environment) (timestamp : String) (o : Options) :
    m Outcome := do
  let (result, events) ← (scan fs.logged w.refusal env timestamp o).run []
  return (Outcome.ofResult o.explain result).after (w.log o.verbose (env.get? filterVariable) events)

def run (fs : Files m) (w : Wording) (env : Environment) (timestamp : String) (args : List String) :
    m Outcome := do
  let env ← loadEnvironment fs env
  match request? .nothing args with
  | none => return .usage
  | some .version => return .version
  | some (.scan g) =>
    match g.options? (env.get? configVariable) with
    | none => return .usage
    | some o => runOptions fs w env timestamp o

end MigrationLint.Cli
