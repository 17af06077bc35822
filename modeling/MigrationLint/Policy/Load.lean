import MigrationLint.Files.Access
import MigrationLint.Policy.File

/-!
# Loading a policy

A policy is loaded from its file; settings that stand above the file replace those of the file.
-/

namespace MigrationLint

variable {m : Type → Type} [Monad m]

def Policy.resolve (file above : Settings) : Except PolicyError Policy :=
  Policy.ofSettings (above.onTopOf file)

def Policy.load (fs : Files m) (refusal : String → String) (path : String) (above : Settings) :
    m (Except PolicyError Policy) := do
  match ← fs.readText path with
  | .error e => return .error (.unreadable path e)
  | .ok text => return (Settings.ofText refusal text).bind fun file => Policy.resolve file above

end MigrationLint
