/-!
# JSON values

A value as it is read from a text. A string whose escapes leave half a surrogate pair over has no
text, and a number has a value only if it is written as a natural number.
-/

namespace MigrationLint

inductive Json where
  | null
  | bool (value : Bool)
  | number (value : Option Nat)
  | text (value : Option String)
  | array (items : List Json)
  | object (members : List (Option String × Json))

namespace Json

/-! ## Reading fields -/

def string? : Json → Option String
  | text s => s
  | _ => none

/-- A natural number below the bound. -/
def natural? (bound : Nat) : Json → Option Nat
  | number n => n.filter (· < bound)
  | _ => none

def list? {α : Type} (read : Json → Option α) : Json → Option (List α)
  | array items => items.mapM read
  | _ => none

/-- What the members say about a name: nothing, a value, or too much. -/
def member? (members : List (Option String × Json)) (name : String) : Option (Option Json) :=
  match members.filter (·.1 == some name) with
  | [] => some none
  | [m] => some (some m.2)
  | _ => none

/-- The values of a record with the given field names. It is an object that has each name at most
once and any other names besides, or an array of the values in order, the last of which may miss. -/
def fields? (names : List String) : Json → Option (List (Option Json))
  | object members => if members.all (·.1.isSome) then names.mapM (member? members) else none
  | array items =>
    if items.length ≤ names.length
    then some (items.map some ++ List.replicate (names.length - items.length) none) else none
  | _ => none

def required? {α : Type} (read : Json → Option α) (field : Option Json) : Option α := field.bind read

/-- A field that may miss or be null. -/
def optional? {α : Type} (read : Json → Option α) : Option Json → Option (Option α)
  | none => some none
  | some null => some none
  | some j => (read j).map some

end Json

end MigrationLint
