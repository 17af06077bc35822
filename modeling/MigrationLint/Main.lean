import MigrationLint.Cli.Run
import Std.Time

/-!
# The command line program

The files on disk, the environment of the process and the time, handed to a run.
-/

namespace MigrationLint

/-! ## Files on disk -/

/-- The error of a system code, which may come with its sign changed. -/
def FileError.ofCode (code : UInt32) (message : String) : FileError :=
  let code := min code (0 - code)
  if code = 2 then .notFound
  else if code = 20 then .notDirectory
  else if code = 21 then .isDirectory
  else if code = 36 then .nameTooLong
  else if code = 40 then .tooManyLinks
  else .other (message ++ " (os error " ++ toString code ++ ")")

def FileError.ofIO : IO.Error → FileError
  | .noFileOrDirectory _ code s => .ofCode code s
  | .noSuchThing _ code s => .ofCode code s
  | .inappropriateType _ code s => .ofCode code s
  | .invalidArgument _ code s => .ofCode code s
  | .permissionDenied _ code s => .ofCode code s
  | .illegalOperation code s => .ofCode code s
  | .otherError code s => .ofCode code s
  | e => .other (toString e)

def attempt {α : Type} (act : IO α) : IO (Except FileError α) := do
  try return .ok (← act)
  catch e => return .error (.ofIO e)

/-- The entries of a folder, or the reason why it cannot be opened. -/
def folderEntries (path : String) : IO (Except FileError (List (String × Kind))) := attempt do
  let mut found := []
  for entry in ← (← IO.FS.realPath path).readDir do
    match (← entry.path.symlinkMetadata).type with
    | .file => found := (entry.fileName, .file) :: found
    | .symlink => found := (entry.fileName, .link) :: found
    | .dir => found := (entry.fileName, .folder) :: found
    | .other => pure ()
  return found.reverse

/-- Everything below a folder, given by the names that lead to it from `dir`. -/
partial def listBelow (dir : String) (names : List String) : IO (Except ScanError Listing) := do
  let path := joinPaths dir names
  match ← folderEntries path with
  | .error e => return .error (.walk path e)
  | .ok entries =>
    let mut found := []
    for (name, kind) in entries do
      found := found ++ [(names ++ [name], kind)]
      if kind = .folder then
        match ← listBelow dir (names ++ [name]) with
        | .ok l => found := found ++ l
        | .error e => return .error e
    return .ok found

def onDisk : Files IO where
  read path := attempt (IO.FS.readBinFile path)
  listing dir := do
    match ← attempt (IO.FS.realPath dir) with
    | .error _ => return .error (.directoryNotFound dir)
    | .ok path => if ← path.isDir then listBelow dir [] else return .error (.directoryNotFound dir)
  write path bytes := attempt (IO.FS.writeBinFile path bytes)
  depth := do return (← IO.currentDir).components.length - 1
  log _ := return ()

/-! ## Environment and time -/

/-- The names that a run may look up: those it knows, and those in the environment file. -/
def lookedUp (file : Option ByteArray) : List String :=
  let known :=
    [Cli.configVariable, Cli.filterVariable, Settings.prefixVariable, Settings.allowedVariable,
     Settings.blockedVariable, Settings.extensionsVariable]
  match file.map decodeText with
  | some (.ok s) =>
    let cuts : List (Char → Bool) :=
      [(!Environment.isKeyChar ·), (!Text.isAlphanumeric ·), fun c => c == '\x7b' || c == '\x7d']
    let runs := cuts.flatMap fun cut => Text.pieces cut s.toList
    known ++ (runs.filter (!·.isEmpty)).map String.ofList
  | _ => known

def processEnvironment (names : List String) : IO Environment :=
  names.filterMapM fun name => do return (← IO.getEnv name).map (name, ·)

/-- The time as a report holds it, and as the log does. -/
def times : IO (String × String) := do
  let now := Std.Time.DateTime.ofTimestamp (← Std.Time.Timestamp.now) Std.Time.TimeZone.ZoneRules.UTC
  let day := now.format "uuuu-MM-dd" ++ "T"
  return (day ++ now.format "HH:mm:ss.SSSSSSSSSxxx", day ++ now.format "HH:mm:ss.SSSSSS" ++ "Z")

/-- The characters that the log does not write by their numbers. -/
def isPlain (c : Char) : Bool := 32 ≤ c.toNat && c.toNat < 127 || 160 < c.toNat && !Text.isBlank c

end MigrationLint

open MigrationLint in
def main (args : List String) : IO UInt32 := do
  let env ← processEnvironment (lookedUp (← Cli.environmentFile onDisk))
  let (reported, logged) ← times
  let wording := Cli.Wording.atTime logged isPlain fun _ => "not a policy"
  let outcome ← Cli.run onDisk wording env reported args
  IO.print outcome.stdout
  IO.eprint outcome.stderr
  return outcome.exit.toUInt32
