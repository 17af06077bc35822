import MigrationLint.Text.Lower
import MigrationLint.Text.Pieces
import MigrationLint.Sql.Region

/-!
# Normal SQL text

A normal text is stripped and lowercase. Its statements lie between the semicolons; blanks around a
statement do not belong to it, and a blank piece is no statement.
-/

namespace MigrationLint.Sql

open Text

def normal (s : List Char) : List Char := lower (strip s)

def normalize (sql : String) : String := .ofList (normal sql.toList)

def statements (s : List Char) : List (List Char) :=
  ((pieces (· == ';') s).map trim).filter fun t => !t.isEmpty

end MigrationLint.Sql
