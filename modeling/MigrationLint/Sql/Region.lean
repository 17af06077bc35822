/-!
# Regions of SQL text

Outside comments, literals, quoted names and bodies a text is plain. Stripping drops comments, turns
each literal and each body into one space, and takes the quotes off a quoted name. A region that is
never closed reaches to the end of the text.
-/

namespace MigrationLint.Sql

inductive Region where
  | plain
  | line
  | block
  | literal
  | quoted
  | body (tag : List Char)
  deriving DecidableEq, Repr

/-- What reading one character does: the characters it leaves, the region that follows, and how many
more characters belong to the same marker. -/
structure Reading where
  out : List Char
  region : Region
  skip : Nat
  deriving DecidableEq, Repr

def isTagChar (c : Char) : Bool := c.isAlphanum || c == '_'

/-- The tag `$name$` at the front of a text. -/
def tagAt : List Char → Option (List Char)
  | [] => none
  | c :: s =>
    if c = '$' ∧ (s.dropWhile isTagChar).head? = some '$'
    then some ('$' :: s.takeWhile isTagChar ++ ['$']) else none

/-- Reads the character `c` with `s` after it. A doubled quote does not close its region, and a body
is closed by its own tag alone. -/
def Region.read (r : Region) (c : Char) (s : List Char) : Reading :=
  match r with
  | .line => if c = '\n' then ⟨['\n'], .plain, 0⟩ else ⟨[], .line, 0⟩
  | .block => if c = '*' ∧ s.head? = some '/' then ⟨[], .plain, 1⟩ else ⟨[], .block, 0⟩
  | .literal =>
    if c = '\x27' then
      if s.head? = some '\x27' then ⟨[], .literal, 1⟩ else ⟨[' '], .plain, 0⟩
    else ⟨[], .literal, 0⟩
  | .quoted =>
    if c = '\x22' then
      if s.head? = some '\x22' then ⟨['\x22'], .quoted, 1⟩ else ⟨[], .plain, 0⟩
    else ⟨[c], .quoted, 0⟩
  | .body tag => if tag.isPrefixOf (c :: s) then ⟨[' '], .plain, tag.length - 1⟩ else ⟨[], .body tag, 0⟩
  | .plain =>
    if c = '-' ∧ s.head? = some '-' then ⟨[], .line, 1⟩
    else if c = '/' ∧ s.head? = some '*' then ⟨[], .block, 1⟩
    else if c = '\x27' then ⟨[], .literal, 0⟩
    else if c = '\x22' then ⟨[], .quoted, 0⟩
    else match tagAt (c :: s) with
      | some tag => ⟨[' '], .body tag, tag.length - 1⟩
      | none => ⟨[c], .plain, 0⟩

/-- Strips a text that starts in a region, after the next `skip` characters. -/
def stripFrom : Region → Nat → List Char → List Char
  | _, _, [] => []
  | r, k + 1, _ :: s => stripFrom r k s
  | r, 0, c :: s => (r.read c s).out ++ stripFrom (r.read c s).region (r.read c s).skip s

def strip (s : List Char) : List Char := stripFrom .plain 0 s

end MigrationLint.Sql
