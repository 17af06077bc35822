import MigrationLint.Json.Basic
import MigrationLint.Json.Quoted

/-!
# Writing JSON

A value is written on one line without blanks, or with each item and member on a line of its own,
indented by two blanks a level. A number or string that has no value is written as one that reads the
same way.
-/

namespace MigrationLint.Json

/-- The break in front of an item: none on one line, else a new line at the given depth. -/
def newline : Option Nat → List Char
  | none => []
  | some d => '\n' :: List.replicate (2 * d) ' '

def deeper (depth : Option Nat) : Option Nat := depth.map (· + 1)

def colon (depth : Option Nat) : List Char := if depth.isSome then [':', ' '] else [':']

def naturalText : Option Nat → List Char
  | some n => Nat.toDigits 10 n
  | none => ['-', '1']

def stringText : Option String → List Char
  | some s => quote s
  | none => "\"\\ud800\"".toList

mutual

/-- The text of a value that stands at the given depth. -/
def write (depth : Option Nat) : Json → List Char
  | .null => "null".toList
  | .bool true => "true".toList
  | .bool false => "false".toList
  | .number n => naturalText n
  | .text s => stringText s
  | .array [] => ['[', ']']
  | .array (v :: vs) =>
    '[' :: newline (deeper depth) ++ write (deeper depth) v ++ writeItems (deeper depth) vs ++
      newline depth ++ [']']
  | .object [] => ['{', '}']
  | .object ((k, v) :: ms) =>
    '{' :: newline (deeper depth) ++ stringText k ++ colon depth ++ write (deeper depth) v ++
      writeMembers (deeper depth) ms ++ newline depth ++ ['}']

def writeItems (depth : Option Nat) : List Json → List Char
  | [] => []
  | v :: vs => ',' :: newline depth ++ write depth v ++ writeItems depth vs

def writeMembers (depth : Option Nat) : List (Option String × Json) → List Char
  | [] => []
  | (k, v) :: ms =>
    ',' :: newline depth ++ stringText k ++ colon depth ++ write depth v ++ writeMembers depth ms

end

def compact (j : Json) : String := .ofList (write none j)

def pretty (j : Json) : String := .ofList (write (some 0) j)

end MigrationLint.Json
