import MigrationLint.Json.Printer
import MigrationLint.Json.Reader
import MigrationLint.Report.Basic

/-!
# The text of a report

A report is written as a record with one member a line. It is read back from any text of the same
record; every field must be there, and numbers have to fit their width.
-/

namespace MigrationLint

/-- A record whose names and values are given in order. -/
def Json.record (fields : List (String × Json)) : Json := .object (fields.map fun f => (some f.1, f.2))

def Json.ofString (s : String) : Json := .text (some s)

def Json.ofNat (n : Nat) : Json := .number (some n)

/-! ## Codes and issues -/

def Code.toJson (code : Code) : Json := .ofString code.name

/-- A code is its name, or a record of that name alone that holds null. -/
def Code.ofJson? : Json → Option Code
  | .text (some s) => ofName? s
  | .object [(some s, .null)] => ofName? s
  | _ => none

def Issue.toJson (i : Issue) : Json := .record [("code", i.code.toJson), ("message", .ofString i.message)]

/-! ## Violations -/

def Violation.toJson (v : Violation) : Json :=
  .record
    [("file", .ofString v.file), ("statement", .ofString v.statement), ("code", v.issue.code.toJson),
     ("message", .ofString v.issue.message)]

def Violation.ofJson? (j : Json) : Option Violation := do
  match ← j.fields? ["file", "statement", "code", "message"] with
  | [file, statement, code, message] =>
    some
      { file := ← Json.required? Json.string? file
        statement := ← Json.required? Json.string? statement
        issue := ⟨← Json.required? Code.ofJson? code, ← Json.required? Json.string? message⟩ }
  | _ => none

/-! ## Reports -/

/-- Version numbers have 32 bits. -/
def versionBound : Nat := 0x100000000

def Version.toJson (v : Version) : Json := .record [("major", .ofNat v.major), ("minor", .ofNat v.minor)]

def Version.ofJson? (j : Json) : Option Version := do
  match ← j.fields? ["major", "minor"] with
  | [major, minor] =>
    some
      { major := ← Json.required? (Json.natural? versionBound) major
        minor := ← Json.required? (Json.natural? versionBound) minor }
  | _ => none

namespace Report

def toJson (r : Report) : Json :=
  .record
    [("version", r.version.toJson), ("timestamp", .ofString r.timestamp),
     ("files_scanned", .ofNat r.filesScanned), ("statements_checked", .ofNat r.statementsChecked),
     ("violations", .array (r.violations.map Violation.toJson))]

def ofJson? (j : Json) : Option Report := do
  match ← j.fields? ["version", "timestamp", "files_scanned", "statements_checked", "violations"] with
  | [version, timestamp, files, statements, violations] =>
    some
      { version := ← Json.required? Version.ofJson? version
        timestamp := ← Json.required? Json.string? timestamp
        filesScanned := ← Json.required? (Json.natural? countBound) files
        statementsChecked := ← Json.required? (Json.natural? countBound) statements
        violations := ← Json.required? (Json.list? Violation.ofJson?) violations }
  | _ => none

def text (r : Report) : String := r.toJson.pretty

def ofText? (s : String) : Option Report := (Json.parse? s.toList).bind ofJson?

end Report

end MigrationLint
