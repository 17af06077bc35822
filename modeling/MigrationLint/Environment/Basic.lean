/-!
# Environments

An environment gives values to variables. A definition never changes a variable that is there, even
if its value is empty.
-/

namespace MigrationLint

abbrev Environment := List (String × String)

namespace Environment

def get? (env : Environment) (name : String) : Option String := env.lookup name

/-- What follows the text and an equals sign in the first entry `NAME=value` that starts so. The text
may be longer than the name of the entry. -/
def after? (env : Environment) (text : String) : Option String :=
  env.findSome? fun e =>
    ((text ++ "=").toList.isPrefixOf? (e.1 ++ "=" ++ e.2).toList).map String.ofList

def define (env : Environment) (name value : String) : Environment :=
  if (env.get? name).isSome then env else env ++ [(name, value)]

end Environment

end MigrationLint
