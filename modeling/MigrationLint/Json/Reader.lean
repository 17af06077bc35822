import MigrationLint.Json.Basic
import MigrationLint.Json.Quoted

/-!
# Reading JSON

The reader takes one value with blanks around it and nothing else. Each step of the recursion uses up
fuel; twice the length of the text is enough, since no two steps follow each other without reading.
-/

namespace MigrationLint.Json

def isSpace (c : Char) : Bool := c == ' ' || c == '\t' || c == '\n' || c == '\r'

def skipSpace (s : List Char) : List Char := s.dropWhile isSpace

/-! ## Numbers -/

/-- The digits at the front, if there is one, and the text after them. -/
def digits? (s : List Char) : Option (List Char × List Char) :=
  let ds := s.takeWhile Char.isDigit
  if ds.isEmpty then none else some (ds, s.dropWhile Char.isDigit)

/-- The text after a fraction, and whether there is one. -/
def fraction? : List Char → Option (Bool × List Char)
  | '.' :: s => (digits? s).map fun r => (true, r.2)
  | s => some (false, s)

/-- The text after an exponent, and whether there is one. -/
def exponent? : List Char → Option (Bool × List Char)
  | c :: s =>
    if c = 'e' ∨ c = 'E' then
      match s with
      | '+' :: s => (digits? s).map fun r => (true, r.2)
      | '-' :: s => (digits? s).map fun r => (true, r.2)
      | s => (digits? s).map fun r => (true, r.2)
    else some (false, c :: s)
  | [] => some (false, [])

/-- A number without a sign. A zero at the front stands alone. -/
def unsigned? (s : List Char) : Option (Option Nat × List Char) := do
  let (ds, s) ← digits? s
  if ds.head? = some '0' ∧ ds ≠ ['0'] then none
  let (broken, s) ← fraction? s
  let (scaled, s) ← exponent? s
  some (if broken || scaled then none else some (Nat.ofDigitChars 10 ds 0), s)

def number? : List Char → Option (Option Nat × List Char)
  | '-' :: s => (unsigned? s).map fun r => (none, r.2)
  | s => unsigned? s

/-! ## Values -/

mutual

def value? : Nat → List Char → Option (Json × List Char)
  | 0, _ => none
  | n + 1, s =>
    match skipSpace s with
    | 'n' :: 'u' :: 'l' :: 'l' :: s => some (.null, s)
    | 't' :: 'r' :: 'u' :: 'e' :: s => some (.bool true, s)
    | 'f' :: 'a' :: 'l' :: 's' :: 'e' :: s => some (.bool false, s)
    | '\x22' :: s => (quoted? s).map fun r => (.text r.1, r.2)
    | '[' :: s =>
      match skipSpace s with
      | ']' :: s => some (.array [], s)
      | s => (items? n s).map fun r => (.array r.1, r.2)
    | '{' :: s =>
      match skipSpace s with
      | '}' :: s => some (.object [], s)
      | s => (members? n s).map fun r => (.object r.1, r.2)
    | s => (number? s).map fun r => (.number r.1, r.2)

def items? : Nat → List Char → Option (List Json × List Char)
  | 0, _ => none
  | n + 1, s =>
    (value? n s).bind fun (v, s) =>
      match skipSpace s with
      | ']' :: s => some ([v], s)
      | ',' :: s => (items? n s).map fun r => (v :: r.1, r.2)
      | _ => none

def members? : Nat → List Char → Option (List (Option String × Json) × List Char)
  | 0, _ => none
  | n + 1, s =>
    match skipSpace s with
    | '\x22' :: s =>
      (quoted? s).bind fun (k, s) =>
        match skipSpace s with
        | ':' :: s =>
          (value? n s).bind fun (v, s) =>
            match skipSpace s with
            | '}' :: s => some ([(k, v)], s)
            | ',' :: s => (members? n s).map fun r => ((k, v) :: r.1, r.2)
            | _ => none
        | _ => none
    | _ => none

end

def parse? (s : List Char) : Option Json :=
  match value? (2 * s.length + 2) s with
  | some (v, s) => if (skipSpace s).isEmpty then some v else none
  | none => none

end MigrationLint.Json
