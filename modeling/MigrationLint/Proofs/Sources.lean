import Mathlib
import MigrationLint.Proofs.Paths
import MigrationLint.Scan.Source

/-!
# Reports of sources

A report adds up its files one after the other (`foldl_extended`). The files are taken by their paths, so the
order in which they are given does not matter, and what one file holds does not reach the others.
-/

namespace MigrationLint

def Source.parts (s : Source) : List PathPart := pathParts s.path

theorem foldl_extended (files : List (Nat × List Violation)) (r : Report) :
    files.foldl (fun r f => r.extended f.1 f.2) r =
      { r with
        filesScanned := r.filesScanned + files.length
        statementsChecked := r.statementsChecked + (files.map Prod.fst).sum
        violations := r.violations ++ files.flatMap Prod.snd } := by
  induction files generalizing r with
  | nil => simp
  | cons f files ih =>
    rw [List.foldl_cons, ih]
    simp [Report.extended, Nat.add_assoc, Nat.add_comm 1]

theorem stablySorted_sources (sources : List Source) :
    StablySorted Source.parts sources (inPathOrder sources) := by
  refine stablySorted_mergeSort ?_ sources
  exact fun _ _ => pathLe_iff

theorem scanSources_eq (p : Policy) (timestamp : String) {sources sorted : List Source}
    (h : StablySorted Source.parts sources sorted) :
    scanSources p timestamp sources =
      { version := .current
        timestamp
        filesScanned := sources.length
        statementsChecked := (sources.map fun s => (s.scan p).1).sum
        violations := sorted.flatMap fun s => (s.scan p).2 } := by
  have hsort : inPathOrder sources = sorted := (stablySorted_sources sources).unique h
  have hfold : sorted.foldl (Report.addSource p) (.new timestamp) =
      (sorted.map (Source.scan p)).foldl (fun r f => r.extended f.1 f.2) (.new timestamp) := by
    rw [List.foldl_map]
    rfl
  rw [scanSources, hsort, hfold, foldl_extended, List.map_map, List.length_map, List.flatMap_map,
    h.perm.length_eq, (h.perm.map (Prod.fst ∘ Source.scan p)).sum_eq]
  simp [Report.new, Function.comp_def]

/-- **Reports of sources.** A report counts all files and statements and lists the violations of each file,
file by file in the order of the paths; of files with equal paths the first given comes first. Where no two
paths are equal, the order in which the files are given is without effect. The violations of a file stand in
one place among those of the others, which are as they are without it, whatever it holds. -/
theorem scanSources_report (p : Policy) (timestamp : String) (sources : List Source) :
    (∃ sorted, StablySorted Source.parts sources sorted ∧
      scanSources p timestamp sources =
        { version := .current
          timestamp
          filesScanned := sources.length
          statementsChecked := (sources.map fun s => (s.scan p).1).sum
          violations := sorted.flatMap fun s => (s.scan p).2 }) ∧
    ((sources.Pairwise fun s t => s.parts ≠ t.parts) →
      ∀ given, given.Perm sources → ∀ timestamp',
        scanSources p timestamp' given = { scanSources p timestamp sources with timestamp := timestamp' }) ∧
    ∀ u v path, sources = u ++ v → ∃ pre post,
      pre ++ post = (scanSources p timestamp sources).violations ∧
      ∀ text, (scanSources p timestamp (u ++ ⟨path, text⟩ :: v)).violations =
        pre ++ (Source.scan p ⟨path, text⟩).2 ++ post := by
  have hsorted := stablySorted_sources sources
  refine ⟨⟨_, hsorted, scanSources_eq p timestamp hsorted⟩, fun hd given hp timestamp' => ?_, ?_⟩
  · rw [scanSources_eq p timestamp hsorted, scanSources_eq p timestamp' (hsorted.of_perm hp hd), hp.length_eq,
      (hp.map fun s => (s.scan p).1).sum_eq]
  · rintro u v path rfl
    obtain ⟨pre, post, hs, hinsert⟩ := hsorted.insert (pathParts path)
    refine ⟨pre.flatMap fun s => (s.scan p).2, post.flatMap fun s => (s.scan p).2, ?_, fun text => ?_⟩
    · rw [scanSources_eq p timestamp hsorted, ← hs, List.flatMap_append]
    · rw [scanSources_eq p timestamp (hinsert ⟨path, text⟩ rfl), List.flatMap_append, List.flatMap_cons,
        List.append_assoc]

/-- A file below a folder is reported first, wherever it is given. -/
theorem scanSources_report_folder :
    let p : Policy := ⟨"cb_", ["public"], ["auth"], []⟩
    let below : Source := ⟨"a/b.sql", "drop table auth.cb_t;"⟩
    let beside : Source := ⟨"a-b.sql", "grant all on cb_t to x;"⟩
    ([below, beside].Pairwise fun s t => s.parts ≠ t.parts) ∧ [beside, below].Perm [below, beside] ∧
      scanSources p "later" [beside, below] = { scanSources p "now" [below, beside] with timestamp := "later" } ∧
      (scanSources p "now" [below, beside]).violations.map Violation.display =
        ["a/b.sql: blocked schema reference: auth",
          "a-b.sql: GRANT/REVOKE is not supported (blocked by policy)"] := by
  intro p below beside
  have hd : [below, beside].Pairwise fun s t => s.parts ≠ t.parts := by decide
  have hp : [beside, below].Perm [below, beside] := .swap below beside []
  have hsorted : StablySorted Source.parts [below, beside] [below, beside] := ⟨.refl _, by decide, fun _ => rfl⟩
  refine ⟨hd, hp, (scanSources_report p "now" [below, beside]).2.1 hd _ hp "later", ?_⟩
  rw [scanSources_eq p "now" hsorted]
  decide +kernel

end MigrationLint
