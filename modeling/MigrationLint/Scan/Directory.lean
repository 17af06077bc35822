import MigrationLint.Files.Access
import MigrationLint.Scan.Source

/-!
# Scanning a directory

A directory is scanned whole or not at all: the first migration file that cannot be read ends the
scan, and so does a directory without migration files. A scan logs what it finds and checks.
-/

namespace MigrationLint

variable {m : Type → Type} [Monad m]

/-- The paths of the migration files below a directory. -/
def discover (fs : Files m) (dir : String) : m (Except ScanError (List String)) := do
  match ← fs.listing dir with
  | .error e => return .error e
  | .ok found =>
    fs.log (.filesDiscovered dir (found.migrations dir).length)
    return .ok (found.migrations dir)

def readSource (fs : Files m) (path : String) : m (Except ScanError Source) := do
  match ← fs.readText path with
  | .ok text => return .ok ⟨path, text⟩
  | .error e => return .error (.read path e)

def readSources (fs : Files m) : List String → m (Except ScanError (List Source))
  | [] => return .ok []
  | path :: paths => do
    match ← readSource fs path with
    | .error e => return .error e
    | .ok s => return (← readSources fs paths).map (s :: ·)

/-- The report of the sources; each of them is logged as the report takes it. -/
def reportSources (fs : Files m) (p : Policy) (timestamp : String) (sources : List Source) : m Report := do
  (inPathOrder sources).forM fun s => fs.log (s.event p)
  let r := scanSources p timestamp sources
  fs.log r.event
  return r

def scanDirectory (fs : Files m) (p : Policy) (timestamp dir : String) : m (Except ScanError Report) := do
  match ← discover fs dir with
  | .error e => return .error e
  | .ok [] => return .error (.noSqlFiles dir)
  | .ok paths =>
    match ← readSources fs paths with
    | .error e => return .error e
    | .ok sources => return .ok (← reportSources fs p timestamp sources)

end MigrationLint
