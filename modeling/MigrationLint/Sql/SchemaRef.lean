import MigrationLint.Text.Blank
import MigrationLint.Text.Word

/-!
# Schema references

A reference is two identifiers with a dot between them; blanks around the dot do not matter. In a
chain of linked identifiers every second one is a schema.
-/

namespace MigrationLint.Sql

open Text

inductive Token where
  | word (w : List Char)
  | symbol (c : Char)
  deriving DecidableEq, Repr

def grow (c : Char) : List Token → List Token
  | .word w :: ts => .word (c :: w) :: ts
  | ts => .word [c] :: ts

/-- The maximal runs of word characters and the other characters one by one, without blanks. -/
def tokens : List Char → List Token
  | [] => []
  | c :: s =>
    if isBlank c then tokens s
    else if isWordChar c then if s.head?.any isWordChar then grow c (tokens s) else .word [c] :: tokens s
    else .symbol c :: tokens s

def isIdentChar (c : Char) : Bool := c.isLower || c.isDigit || c == '_'

def isIdent : List Char → Bool
  | [] => false
  | c :: w => (c.isLower || c == '_') && w.all isIdentChar

/-- The schemas that the tokens refer to, in the order of the text. -/
def schemas : List Token → List String
  | .word a :: .symbol '.' :: .word b :: ts =>
    if isIdent a && isIdent b then .ofList a :: schemas ts else schemas (.symbol '.' :: .word b :: ts)
  | _ :: ts => schemas ts
  | [] => []

def schemaRefs (s : List Char) : List String := schemas (tokens s)

end MigrationLint.Sql
