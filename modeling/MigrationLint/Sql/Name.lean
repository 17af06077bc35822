/-!
# Names inside a statement

A name is a run of lowercase letters, digits, underscores and dots at the front of a word.
-/

namespace MigrationLint.Sql

abbrev Word := List Char

def isNameChar (c : Char) : Bool := c.isLower || c.isDigit || c == '_' || c == '.'

def nameRun (w : Word) : Word := w.takeWhile isNameChar

def name? (w : Word) : Option String :=
  if (nameRun w).isEmpty then none else some (.ofList (nameRun w))

/-- The name that a word is. -/
def wholeName? (w : Word) : Option String := if w.all isNameChar then name? w else none

/-- The longest name at the front of a word after which the rest is as wanted. -/
def longestName? (wanted : Word → Bool) : Word → Option Word
  | [] => none
  | c :: w =>
    if isNameChar c then
      match longestName? wanted w with
      | some n => some (c :: n)
      | none => if wanted w then some [c] else none
    else none

end MigrationLint.Sql
