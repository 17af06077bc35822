/-!
# Quoted strings

Writing escapes the quote, the backslash and the control characters, and nothing else. Reading takes
every escape of the format; an escaped number is a code unit, and two halves of a pair are one
character.
-/

namespace MigrationLint.Json

/-! ## Writing -/

def hexDigit (n : Nat) : Char := if n < 10 then Char.ofNat (48 + n) else Char.ofNat (87 + n)

def escape (c : Char) : List Char :=
  if c = '\x22' then ['\\', '\x22']
  else if c = '\\' then ['\\', '\\']
  else if c = '\x08' then ['\\', 'b']
  else if c = '\x0c' then ['\\', 'f']
  else if c = '\n' then ['\\', 'n']
  else if c = '\r' then ['\\', 'r']
  else if c = '\t' then ['\\', 't']
  else if c.toNat < 32 then ['\\', 'u', '0', '0', hexDigit (c.toNat / 16), hexDigit (c.toNat % 16)]
  else [c]

def quote (s : String) : List Char := '\x22' :: s.toList.flatMap escape ++ ['\x22']

/-! ## Reading -/

/-- A part of a string: a character as it stands, or an escaped code unit. -/
inductive Glyph where
  | char (c : Char)
  | unit (n : Nat)
  deriving DecidableEq, Repr

def hexValue? (c : Char) : Option Nat :=
  if c.isDigit then some (c.toNat - 48)
  else if 'a' ≤ c ∧ c ≤ 'f' then some (c.toNat - 87)
  else if 'A' ≤ c ∧ c ≤ 'F' then some (c.toNat - 55)
  else none

def unit? (a b c d : Char) : Option Nat := do
  some (((← hexValue? a) * 16 + (← hexValue? b)) * 256 + ((← hexValue? c) * 16 + (← hexValue? d)))

def unescape? (c : Char) : Option Char :=
  if c = '\x22' ∨ c = '\\' ∨ c = '/' then some c
  else if c = 'b' then some '\x08'
  else if c = 'f' then some '\x0c'
  else if c = 'n' then some '\n'
  else if c = 'r' then some '\r'
  else if c = 't' then some '\t'
  else none

/-- The parts up to the closing quote, and the text after it. -/
def glyphs? : List Char → Option (List Glyph × List Char)
  | [] => none
  | '\x22' :: s => some ([], s)
  | '\\' :: 'u' :: a :: b :: c :: d :: s =>
    (unit? a b c d).bind fun n => (glyphs? s).map fun r => (.unit n :: r.1, r.2)
  | '\\' :: c :: s => (unescape? c).bind fun e => (glyphs? s).map fun r => (.char e :: r.1, r.2)
  | c :: s => if c.toNat < 32 ∨ c = '\\' then none else (glyphs? s).map fun r => (.char c :: r.1, r.2)

def isHighHalf (n : Nat) : Bool := 0xD800 ≤ n && n < 0xDC00

def isLowHalf (n : Nat) : Bool := 0xDC00 ≤ n && n < 0xE000

/-- The text of the parts, unless half a pair is left over. -/
def join? : List Glyph → Option (List Char)
  | [] => some []
  | .char c :: gs => (join? gs).map (c :: ·)
  | .unit n :: gs =>
    if isHighHalf n then
      match gs with
      | .unit m :: gs =>
        if isLowHalf m
        then (join? gs).map (Char.ofNat (0x10000 + (n - 0xD800) * 0x400 + (m - 0xDC00)) :: ·) else none
      | _ => none
    else if isLowHalf n then none
    else (join? gs).map (Char.ofNat n :: ·)

/-- A string whose opening quote is already read, and the text after it. -/
def quoted? (s : List Char) : Option (Option String × List Char) :=
  (glyphs? s).map fun r => ((join? r.1).map .ofList, r.2)

end MigrationLint.Json
