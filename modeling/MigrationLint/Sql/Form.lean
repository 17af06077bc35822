import MigrationLint.Text.Pieces
import MigrationLint.Sql.Clause
import MigrationLint.Sql.Statement

/-!
# Forms of statements

A form is a head of keywords and optional phrases, and a way to take the names from the words after
it. Where an optional phrase can be read, the reading with it is tried first, and the reading without
it if the names are not found.
-/

namespace MigrationLint.Sql

open Text

inductive Part where
  | keyword (choices : List String)
  | maybe (phrases : List (List String))

def after? : List String → List Word → Option (List Word)
  | [], ws => some ws
  | k :: ks, w :: ws => if w = k.toList then after? ks ws else none
  | _ :: _, [] => none

/-- The words after a head, for each way to read it. -/
def readings : List Part → List Word → List (List Word)
  | [], ws => [ws]
  | .keyword choices :: ps, w :: ws => if choices.any (·.toList == w) then readings ps ws else []
  | .keyword _ :: _, [] => []
  | .maybe phrases :: ps, ws => (phrases.filterMap (after? · ws) ++ [ws]).flatMap (readings ps)

structure Form where
  head : List Part
  tail : List Word → Option Statement

def Form.read (f : Form) (ws : List Word) : Option Statement := (readings f.head ws).findSome? f.tail

/-! ## Heads -/

def verb : Part := .keyword ["create", "alter", "drop"]

def ifExists : List String := ["if", "exists"]

def ifNotExists : List String := ["if", "not", "exists"]

def orReplace : Part := .maybe [["or", "replace"]]

def concurrently : Part := .maybe [["concurrently"]]

def only : Part := .maybe [["only"]]

def tableHead : List Part := [verb, .keyword ["table"], .maybe [ifNotExists, ifExists], only]

def dropTriggerHead : List Part := [.keyword ["drop"], .keyword ["trigger"], .maybe [ifExists]]

def viewHead : List Part :=
  [verb, orReplace, .maybe [["materialized"]], .keyword ["view"], .maybe [ifNotExists, ifExists]]

def createIndexHead : List Part :=
  [.keyword ["create"], .maybe [["unique"]], .keyword ["index"], concurrently, .maybe [ifNotExists]]

def dropIndexHead : List Part := [.keyword ["drop"], .keyword ["index"], concurrently, .maybe [ifExists]]

def sequenceHead : List Part := [verb, .keyword ["sequence"], .maybe [ifNotExists, ifExists]]

def functionHead : List Part := [verb, orReplace, .keyword ["function"], .maybe [ifExists]]

def typeHead : List Part := [verb, .keyword ["type"], .maybe [ifExists]]

def createTriggerHead : List Part := [.keyword ["create"], orReplace, .keyword ["trigger"]]

def commentHead : List Part := [.keyword ["comment"], .keyword ["on"]]

def createExtensionHead : List Part :=
  [.keyword ["create"], .keyword ["extension"], .maybe [ifNotExists]]

def policyHead : List Part := [verb, .keyword ["policy"], .maybe [ifExists]]

/-! ## Tails -/

def on : Word := "on".toList

def oneName (make : String → Statement) : List Word → Option Statement
  | w :: _ => (name? w).map make
  | [] => none

/-- A word that is a name, the word `on`, and a second name. -/
def nameOnName (between : List Part) (make : String → String → Statement) : List Word → Option Statement
  | w :: k :: ws =>
    if k = on then
      (wholeName? w).bind fun first => (readings between ws).findSome? (oneName (make first))
    else none
  | _ => none

/-- A name, any text, and the first clause `on` after it. The name is the longest that a clause follows:
the run at the front of the word, or what stands before the `on` at the end of that run. -/
def nameThenOn (make : String → String → Statement) : List Word → Option Statement
  | w :: ws =>
    let run := nameRun w
    if run.isEmpty then none
    else match (clauses on run (w.dropWhile isNameChar) ws).head? with
      | some t => some (make (.ofList run) (.ofList t))
      | none =>
        let before := w.take (w.length - on.length)
        if endsWithWord on [] w && !before.isEmpty
        then (ws.head?.bind name?).map (make (.ofList before)) else none
  | [] => none

def commentObjects : List String := ["table", "view", "type", "sequence", "index", "trigger"]

def objectName : List Word → Option Statement
  | k :: w :: _ =>
    if commentObjects.contains (.ofList k) then (name? w).map (.commentOnObject (.ofList k)) else none
  | _ => none

def isExtensionChar (c : Char) : Bool := c.isLower || c.isDigit || c == '_' || c == '-'

/-- The name of an extension, which a double quote may precede. -/
def extensionName : List Word → Option Statement
  | w :: _ =>
    let name := (if w.head? = some '\x22' then w.tail else w).takeWhile isExtensionChar
    if name.isEmpty then none else some (.createExtension (.ofList name))
  | [] => none

/-- What is left of the text after blanks, given the rest of a word and the words after it. -/
def skipBlank : Word → List Word → Word × List Word
  | [], w :: ws => (w, ws)
  | w, ws => (w, ws)

/-- A dot and the start of a column name, with blanks before either. -/
def dotColumn (w : Word) (ws : List Word) : Bool :=
  match skipBlank w ws with
  | ('.' :: r, ws) => (skipBlank r ws).1.head?.any fun c => isNameChar c && c != '.'
  | _ => false

def columnTable : List Word → Option Statement
  | w :: ws => (longestName? (dotColumn · ws) w).map fun n => .commentOnColumn (.ofList n)
  | [] => none

/-- A name that an opening parenthesis follows. -/
def calledName : List Word → Option Statement
  | w :: ws =>
    if (skipBlank (w.dropWhile isNameChar) ws).1.head? = some '('
    then (name? w).map .commentOnFunction else none
  | [] => none

/-! ## Detection -/

def leadWord (ws : List Word) : Word := (ws.headD []).takeWhile isWordChar

def grantOrRevoke (ws : List Word) : Option Statement :=
  if ["grant", "revoke"].contains (.ofList (leadWord ws)) then some .grantRevoke else none

/-- All forms, in the order in which they are tried. -/
def forms : List Form :=
  [⟨tableHead, oneName .table⟩,
   ⟨dropTriggerHead, nameOnName [] .dropTrigger⟩,
   ⟨viewHead, oneName .view⟩,
   ⟨createIndexHead, nameOnName [only] .createIndex⟩,
   ⟨dropIndexHead, oneName .dropIndex⟩,
   ⟨sequenceHead, oneName .sequence⟩,
   ⟨functionHead, oneName .function⟩,
   ⟨typeHead, oneName .type⟩,
   ⟨createTriggerHead, nameThenOn .createTrigger⟩,
   ⟨commentHead, objectName⟩,
   ⟨createExtensionHead, extensionName⟩,
   ⟨commentHead ++ [.keyword ["column"]], columnTable⟩,
   ⟨commentHead ++ [.keyword ["function"]], calledName⟩,
   ⟨[], grantOrRevoke⟩,
   ⟨policyHead, nameThenOn .policy⟩]

def detect (s : List Char) : Option Statement := forms.findSome? (·.read (words s))

def isDdl (s : List Char) : Bool :=
  ["create", "alter", "drop", "truncate", "grant", "revoke", "comment"].contains
    (.ofList (leadWord (words s)))

end MigrationLint.Sql
