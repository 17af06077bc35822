import MigrationLint.Text.Blank

/-!
# Lines of an environment file

A line goes on while a quote is open or a backslash stands at its end, and a `#` after a blank cuts it.
Blanks are told apart from the text before them only by the character that follows, so of two blanks
in a row the second counts as text.
-/

namespace MigrationLint.Environment

open Text

/-- What the characters read so far have left open. -/
inductive Pending where
  | nothing
  | blank
  | escape
  | weak
  | weakEscape
  | strong
  | strongEscape
  | comment
  deriving DecidableEq, Repr

/-- A character outside quotes. -/
def Pending.open (c : Char) : Pending :=
  if c = '\\' then .escape else if c = '\x22' then .weak else if c = '\x27' then .strong else .nothing

def Pending.next : Pending → Char → Pending
  | .blank, c => if c = '#' then .comment else .open c
  | .escape, _ => .nothing
  | .nothing, c => if isBlank c ∧ c ≠ '\n' ∧ c ≠ '\r' then .blank else .open c
  | .weak, c => if c = '\\' then .weakEscape else if c = '\x22' then .nothing else .weak
  | .weakEscape, _ => .weak
  | .strong, c => if c = '\\' then .strongEscape else if c = '\x27' then .nothing else .strong
  | .strongEscape, _ => .strong
  | .comment, _ => .comment

/-- What a line leaves open, and the line up to its comment. -/
def scanLine : Pending → List Char → Pending × List Char
  | st, [] => (st, [])
  | st, c :: s =>
    if st.next c = .comment then (.comment, [])
    else
      let r := scanLine (st.next c) s
      (r.1, c :: r.2)

def chomp (s : List Char) : List Char :=
  match s.reverse with
  | '\n' :: '\r' :: r => r.reverse
  | '\n' :: r => r.reverse
  | _ => s

/-- The lines, put together where something is left open. `seen` is the line so far. They end where
the text does, at a line that is no text, or with a line that is never closed. -/
def joinLines (seen : List Char) (st : Pending) : List (Option (List Char)) → List (List Char)
  | [] => []
  | none :: _ => []
  | some l :: ls =>
    let line := seen ++ l
    if (trimStart line).head? = some '#' then [] :: joinLines [] .nothing ls
    else match scanLine st l with
      | (.nothing, _) => chomp line :: joinLines [] .nothing ls
      | (.comment, l) => (seen ++ l) :: joinLines [] .nothing ls
      | (st, _) => joinLines line st ls

def byteLines : List UInt8 → List (List UInt8)
  | [] => []
  | b :: bs =>
    if b = 10 then [b] :: byteLines bs
    else match byteLines bs with
      | [] => [[b]]
      | l :: ls => (b :: l) :: ls

def decodeLine (bytes : List UInt8) : Option (List Char) :=
  (String.fromUTF8? ⟨bytes.toArray⟩).map String.toList

/-- The bytes after a byte order mark. -/
def dropMark : List UInt8 → List UInt8
  | 0xEF :: 0xBB :: 0xBF :: bs => bs
  | bs => bs

def fileLines (bytes : ByteArray) : List (List Char) :=
  joinLines [] .nothing ((byteLines (dropMark bytes.data.toList)).map decodeLine)

end MigrationLint.Environment
