import MigrationLint.Proofs.Values
import MigrationLint.Report.Text

/-!
# Reports and their texts

A record has the value of each of its fields where it is read (`fields?_record`). So what is written for a
report is read back as that report, if its numbers fit the widths they are read with, and no two such reports
have the same text (`ofText?_text`).
-/

namespace MigrationLint

/-! ## Records -/

namespace Json

theorem member?_record {fields : List (String × Json)} (hn : (fields.map Prod.fst).Nodup) {name : String} {j : Json}
    (h : (name, j) ∈ fields) : member? (fields.map fun f => (some f.1, f.2)) name = some (some j) := by
  have hone : (fields.map fun f => (some f.1, f.2)).filter (·.1 == some name) = [(some name, j)] := by
    induction fields with
    | nil => cases h
    | cons f fields ih =>
      rw [List.map_cons, List.nodup_cons] at hn
      rcases List.mem_cons.mp h with rfl | h
      · have hothers : (fields.map fun f => (some f.1, f.2)).filter (·.1 == some name) = [] := by
          rw [List.filter_eq_nil_iff, List.forall_mem_map]
          intro f hf
          have hne : f.1 ≠ name := fun e => hn.1 (List.mem_map.mpr ⟨f, hf, e⟩)
          simpa using hne
        rw [List.map_cons, List.filter_cons_of_pos (by simp), hothers]
      · have hne : f.1 ≠ name := fun e => hn.1 (e ▸ List.mem_map_of_mem h)
        rw [List.map_cons, List.filter_cons_of_neg (by simpa using hne), ih hn.2 h]
  rw [member?, hone]

theorem mapM_some {α β : Type} {f : α → Option β} {g : α → β} {l : List α} (h : ∀ a ∈ l, f a = some (g a)) :
    l.mapM f = some (l.map g) := by
  induction l with
  | nil => rfl
  | cons a l ih =>
    rw [List.forall_mem_cons] at h
    rw [List.mapM_cons, h.1, ih h.2]
    rfl

theorem fields?_record {fields : List (String × Json)} (hn : (fields.map Prod.fst).Nodup) :
    (record fields).fields? (fields.map Prod.fst) = some (fields.map fun f => some f.2) := by
  have hnames : (fields.map fun f => (some f.1, f.2)).all (·.1.isSome) = true := by simp
  have hmembers : (fields.map Prod.fst).mapM (member? (fields.map fun f => (some f.1, f.2))) =
      some (fields.map fun f => some f.2) := by
    rw [List.mapM_map]
    exact mapM_some fun f hf => member?_record hn hf
  rw [record, fields?, if_pos hnames, hmembers]

end Json

/-! ## Violations -/

theorem Code.ofName?_name (code : Code) : Code.ofName? code.name = some code := by
  cases code <;> decide

theorem Code.ofJson?_toJson (code : Code) : Code.ofJson? code.toJson = some code := code.ofName?_name

theorem Violation.ofJson?_toJson (v : Violation) : Violation.ofJson? v.toJson = some v := by
  have hfields : v.toJson.fields? ["file", "statement", "code", "message"] =
      some [some (.ofString v.file), some (.ofString v.statement), some v.issue.code.toJson,
        some (.ofString v.issue.message)] := Json.fields?_record (by simp)
  unfold ofJson?
  simp [hfields, Json.required?, Json.ofString, Json.string?, Code.ofJson?_toJson]

/-! ## Reports -/

theorem Json.natural?_ofNat {bound n : Nat} (h : n < bound) : (Json.ofNat n).natural? bound = some n := by
  simp [Json.ofNat, Json.natural?, h]

theorem Version.ofJson?_toJson {v : Version} (hmajor : v.major < versionBound) (hminor : v.minor < versionBound) :
    Version.ofJson? v.toJson = some v := by
  have hfields : v.toJson.fields? ["major", "minor"] = some [some (.ofNat v.major), some (.ofNat v.minor)] :=
    Json.fields?_record (by simp)
  unfold ofJson?
  simp [hfields, Json.required?, Json.natural?_ofNat hmajor, Json.natural?_ofNat hminor]

namespace Report

/-- The numbers of the report have no more bits than they are read with. -/
structure Fits (r : Report) : Prop where
  major : r.version.major < versionBound
  minor : r.version.minor < versionBound
  filesScanned : r.filesScanned < countBound
  statementsChecked : r.statementsChecked < countBound

theorem ofJson?_toJson {r : Report} (h : r.Fits) : ofJson? r.toJson = some r := by
  have hfields : r.toJson.fields? ["version", "timestamp", "files_scanned", "statements_checked", "violations"] =
      some [some r.version.toJson, some (.ofString r.timestamp), some (.ofNat r.filesScanned),
        some (.ofNat r.statementsChecked), some (.array (r.violations.map Violation.toJson))] :=
    Json.fields?_record (by simp)
  have hversion := Version.ofJson?_toJson h.major h.minor
  have hviolations : (r.violations.map Violation.toJson).mapM Violation.ofJson? = some r.violations := by
    rw [List.mapM_map, Json.mapM_some fun v _ => v.ofJson?_toJson, List.map_id']
  unfold ofJson?
  simp [hfields, hversion, hviolations, Json.required?, Json.ofString, Json.string?, Json.list?,
    Json.natural?_ofNat h.filesScanned, Json.natural?_ofNat h.statementsChecked]

/-- **Reports and texts.** A report is read back from its text, and no other report has that text. -/
theorem ofText?_text {r : Report} (h : r.Fits) :
    ofText? r.text = some r ∧ ∀ s : Report, s.Fits → s.text = r.text → s = r := by
  have hread : ∀ {s : Report}, s.Fits → ofText? s.text = some s := by
    intro s hs
    rw [ofText?, text, Json.pretty, String.toList_ofList, Json.parse?_write, Option.bind_some, ofJson?_toJson hs]
  refine ⟨hread h, fun s hs e => ?_⟩
  have hsame := hread hs
  rw [e, hread h] at hsame
  exact (Option.some.inj hsame).symm

/-- A quote, a backslash, line breaks and control characters, and the greatest numbers of their widths. -/
theorem ofText?_text_escapes :
    let v : Violation :=
      ⟨"up\\a.sql", "drop table \x22users\x22;\r\n\t\x01\x7f", ⟨.missingPrefix, "missing \u00e9"⟩⟩
    let r : Report := ⟨⟨4294967295, 0⟩, "2024-01-01T00:00:00Z", 1, 18446744073709551615, [v]⟩
    r.Fits ∧ ofText? r.text = some r ∧ ∀ s : Report, s.Fits → s.text = r.text → s = r := by
  intro v r
  have h : r.Fits := ⟨by decide, by decide, by decide, by decide⟩
  exact ⟨h, ofText?_text h⟩

end Report

end MigrationLint
