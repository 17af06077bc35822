import MigrationLint.Text.Blank

/-!
# Cutting a text into pieces

`pieces` cuts at every character of a kind, `words` at every maximal run of blanks. Both keep empty
pieces, so a text that starts with a blank has an empty first word, and no text has no piece at all.
-/

namespace MigrationLint.Text

def pieces (cut : Char → Bool) : List Char → List (List Char)
  | [] => [[]]
  | c :: s => if cut c then [] :: pieces cut s else (pieces cut s).modifyHead (c :: ·)

def words : List Char → List (List Char)
  | [] => [[]]
  | c :: s =>
    if isBlank c then if s.head?.any isBlank then words s else [] :: words s
    else (words s).modifyHead (c :: ·)

end MigrationLint.Text
