import MigrationLint.Files.Error

/-!
# Scan errors

What keeps a scan from giving a report.
-/

namespace MigrationLint

inductive ScanError where
  | directoryNotFound (dir : String)
  | noSqlFiles (dir : String)
  | walk (path : String) (error : FileError)
  | read (path : String) (error : FileError)
  deriving DecidableEq, Repr

namespace ScanError

def message : ScanError → String
  | directoryNotFound dir => "migrations directory not found: " ++ dir
  | noSqlFiles dir => "no .sql files found in " ++ dir
  | walk path error =>
    "failed to walk " ++ path ++ ": IO error for operation on " ++ path ++ ": " ++ error.message
  | read path error => "failed to read " ++ path ++ ": " ++ error.message

/-- The message with the causes that stand behind the error. -/
def fullMessage : ScanError → String
  | read path error => (read path error).message ++ ": " ++ error.message
  | e => e.message

end ScanError

end MigrationLint
