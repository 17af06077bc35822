import MigrationLint.Text.Word
import MigrationLint.Sql.Name

/-!
# Clauses

A clause is a keyword that ends a word, no word character standing before it, and a name at the front
of the next word. Clauses are read from left to right; the one after a clause starts beyond its name.
-/

namespace MigrationLint.Sql

open Text

/-- `before ++ w` ends with the keyword, which lies inside `w` and starts at a word boundary. -/
def endsWithWord (key before w : Word) : Bool :=
  key.isSuffixOf w && !(before ++ w.take (w.length - key.length)).getLast?.any isWordChar

/-- The names of the clauses in the word `w`, of which `before` is already read, and the words after. -/
def clauses (key before w : Word) : List Word → List Word
  | [] => []
  | t :: ws =>
    if endsWithWord key before w && !(nameRun t).isEmpty
    then nameRun t :: clauses key [] (t.dropWhile isNameChar) ws
    else clauses key [] t ws

end MigrationLint.Sql
