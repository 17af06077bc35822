import MigrationLint.Environment.Basic
import MigrationLint.Environment.Lines
import MigrationLint.Text.Alphanumeric

/-!
# Environment files

A line of an environment file is blank, a comment, or an assignment `NAME=value`, which `export` may
precede. A value may be quoted and may refer to variables. The first line that is none of these ends
the reading; what stands before it counts.
-/

namespace MigrationLint.Environment

open Text

/-! ## Values -/

inductive Quoting where
  | bare
  | weak
  | strong
  deriving DecidableEq, Repr

inductive Phase where
  | text
  | escaped
  | ended
  | naming
  | braced
  deriving DecidableEq, Repr

/-- A value as far as it is read. The name of a variable and the text that comes out are kept with their
last character first. -/
structure Reading where
  quoting : Quoting
  phase : Phase
  name : List Char
  out : List Char
  deriving DecidableEq, Repr

namespace Reading

def start : Reading := ⟨.bare, .text, [], []⟩

def push (r : Reading) (c : Char) : Reading := { r with phase := .text, out := c :: r.out }

/-- Puts the value of the variable whose name is read; one that is not set has no text. Without braces a
name is made of letters and numbers. -/
def substitute (env : Environment) (r : Reading) : Reading :=
  let value := (env.after? (.ofList r.name.reverse)).getD ""
  { r with phase := .text, name := [], out := value.toList.reverse ++ r.out }

def readText (r : Reading) (c : Char) : Reading :=
  match r.quoting with
  | .strong => if c = '\x27' then { r with quoting := .bare } else r.push c
  | .weak =>
    if c = '$' then { r with phase := .naming }
    else if c = '\x22' then { r with quoting := .bare }
    else if c = '\\' then { r with phase := .escaped }
    else r.push c
  | .bare =>
    if c = '$' then { r with phase := .naming }
    else if c = '\x27' then { r with quoting := .strong }
    else if c = '\x22' then { r with quoting := .weak }
    else if c = '\\' then { r with phase := .escaped }
    else if c = ' ' ∨ c = '\t' then { r with phase := .ended }
    else r.push c

/-- Reads one character; only after an escape or the end of the value can it be wrong. -/
def read? (env : Environment) (r : Reading) (c : Char) : Option Reading :=
  match r.phase with
  | .text => some (r.readText c)
  | .ended => if c = ' ' ∨ c = '\t' then some r else none
  | .escaped =>
    if c = 'n' then some (r.push '\n')
    else if ['\\', '\x27', '\x22', '$', ' '].contains c then some (r.push c) else none
  | .naming =>
    if isAlphanumeric c then some { r with name := c :: r.name }
    else if c = '\x7b' ∧ r.name = [] then some { r with phase := .braced }
    else if c = '$' then some { r.substitute env with phase := .naming }
    else some ((r.substitute env).push c)
  | .braced =>
    if c = '\x7d' then some (r.substitute env) else some { r with name := c :: r.name }

/-- The value, if no quote or brace is left open. -/
def finish? (env : Environment) (r : Reading) : Option (List Char) :=
  if r.quoting = .bare ∧ r.phase ≠ .braced then
    some (if r.phase = .naming then (r.substitute env).out else r.out).reverse
  else none

end Reading

def readValue (env : Environment) (r : Reading) : List Char → Option (List Char)
  | [] => r.finish? env
  | c :: s =>
    if r.phase = .ended ∧ c = '#' then r.finish? env
    else (r.read? env c).bind fun r => readValue env r s

/-! ## Assignments -/

def isKeyChar (c : Char) : Bool := c.isAlphanum || c == '_' || c == '.'

/-- The key at the front of a line, and what follows it after blanks. -/
def key? (s : List Char) : Option (List Char × List Char) :=
  if s.head?.any fun c => c.isAlpha || c == '_'
  then some (s.takeWhile isKeyChar, trimStart (s.dropWhile isKeyChar)) else none

def equals? : List Char → Option (List Char)
  | '=' :: s => some (trimStart s)
  | _ => none

/-- The key of an assignment and the text of its value. -/
def keyAndText? (s : List Char) : Option (List Char × List Char) :=
  (key? s).bind fun (key, rest) =>
    match equals? rest with
    | some text => some (key, text)
    | none =>
      if key = "export".toList then
        (key? rest).bind fun (key, rest) => (equals? rest).map fun text => (key, text)
      else none

inductive Line where
  | nothing
  | wrong
  | assign (name value : String)
  deriving DecidableEq, Repr

def isNothing (s : List Char) : Bool := s.isEmpty || s.head? = some '#'

def parseLine (env : Environment) (line : List Char) : Line :=
  let s := trim line
  if isNothing s then .nothing
  else match keyAndText? s with
    | none => .wrong
    | some (key, text) =>
      if isNothing text then .assign (.ofList key) ""
      else match readValue env .start text with
        | some value => .assign (.ofList key) (.ofList value)
        | none => .wrong

def loadLines (env : Environment) : List (List Char) → Environment
  | [] => env
  | l :: ls =>
    match parseLine env l with
    | .nothing => loadLines env ls
    | .assign name value => loadLines (env.define name value) ls
    | .wrong => env

def load (env : Environment) (bytes : ByteArray) : Environment := loadLines env (fileLines bytes)

end MigrationLint.Environment
