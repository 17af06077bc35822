import MigrationLint.Files.Listing
import MigrationLint.Log.Event

/-!
# Access to files

What a run needs of its surroundings, over any monad: the files of a tree in memory, or of a disk, and a
log that takes events.
-/

namespace MigrationLint

structure Files (m : Type → Type) where
  read : String → m (Except FileError ByteArray)
  listing : String → m (Except ScanError Listing)
  write : String → ByteArray → m (Except FileError Unit)
  /-- The number of folders above the current one. -/
  depth : m Nat
  log : Event → m Unit

/-- The text of a file's bytes. -/
def decodeText (bytes : ByteArray) : Except FileError String :=
  match String.fromUTF8? bytes with
  | some s => .ok s
  | none => .error .notText

namespace Files

variable {m : Type → Type} [Monad m]

def readText (fs : Files m) (path : String) : m (Except FileError String) := do
  return (← fs.read path).bind decodeText

/-- The same files, with a log that keeps the events. -/
def logged (fs : Files m) : Files (StateT (List Event) m) where
  read path := StateT.lift (fs.read path)
  listing dir := StateT.lift (fs.listing dir)
  write path bytes := StateT.lift (fs.write path bytes)
  depth := StateT.lift fs.depth
  log e := modify (· ++ [e])

/-- The files of a tree, with a log that keeps nothing. A write that fails leaves the tree as it is. -/
def ofTree : Files (StateM FileTree) where
  read path := do return (← get).read path
  listing dir := do return (← get).listing dir
  write path bytes := do
    match (← get).write path bytes with
    | .ok t => set t; return .ok ()
    | .error e => return .error e
  depth := do return (← get).cwd.length
  log _ := return ()

end Files

end MigrationLint
