/-!
# Sets of characters given by ranges

A property of characters is a list of closed ranges of code points.
-/

namespace MigrationLint.Text

abbrev Ranges := List (Nat × Nat)

def Ranges.has (t : Ranges) (c : Char) : Bool :=
  t.any fun r => r.1 ≤ c.toNat && c.toNat ≤ r.2

end MigrationLint.Text
