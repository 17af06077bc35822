import MigrationLint.Proofs.Spellings

/-!
# The order of the forms

Whatever the words, at most one form reads them, so the forms may be tried in any order, and what they read
starts with a word that makes it DDL (`detect_perm`).
-/

namespace MigrationLint.Sql

open Text

/-! ## Lists in which at most one entry counts -/

section
variable {α β : Type} {f : α → Option β} {l l' : List α}

theorem findSome?_perm (hl : l.Pairwise fun a b => f a = none ∨ f b = none) (h : l'.Perm l) :
    l'.findSome? f = l.findSome? f := by
  induction h with
  | nil => rfl
  | cons a _ ih =>
    rw [List.pairwise_cons] at hl
    rw [List.findSome?_cons, List.findSome?_cons, ih hl.2]
  | swap a b l =>
    -- of the first two entries one finds nothing
    have hab : f a = none ∨ f b = none := (List.pairwise_cons.mp hl).1 b (by simp)
    simp only [List.findSome?_cons]
    rcases hab with h | h
    · rw [h]
    · rw [h]
  | trans _ h₂ ih₁ ih₂ =>
    have hmid := hl.perm h₂.symm fun h => h.symm
    rw [ih₁ hmid, ih₂ hl]

theorem countP_isSome_le_one (hl : l.Pairwise fun a b => f a = none ∨ f b = none) :
    l.countP (fun a => (f a).isSome) ≤ 1 := by
  induction l with
  | nil => simp
  | cons a l ih =>
    rw [List.pairwise_cons] at hl
    have ih := ih hl.2
    rw [List.countP_cons]
    by_cases ha : f a = none
    · simpa [ha] using ih
    · have hzero : l.countP (fun a => (f a).isSome) = 0 := by
        rw [List.countP_eq_zero]
        intro b hb
        simp [(hl.1 b hb).resolve_left ha]
      rw [hzero]
      split <;> simp

end

/-! ## First words -/

/-- The words that a recognized statement may start with. -/
def formWords : List String := ["create", "alter", "drop", "comment", "grant", "revoke"]

theorem head?_covers : ∀ ps ∈ covers, ∀ us ∈ spellings ps, ∃ k ∈ formWords, us.head? = some k.toList := by
  decide +kernel

theorem leadWord_of_read {f : Form} (hf : f ∈ forms) {ws : List Word} {st : Statement} (h : f.read ws = some st) :
    .ofList (leadWord ws) ∈ formWords := by
  obtain ⟨i, hi, rfl⟩ := List.getElem_of_mem hf
  obtain ⟨us, hus, hu⟩ := covers_get i hi ws st h
  obtain ⟨k, hk, hhead⟩ := head?_covers _ (List.get_mem covers ⟨i, hi⟩) us hus
  obtain ⟨us, rfl⟩ := List.head?_eq_some_iff.mp hhead
  obtain ⟨r, hr⟩ := hu
  rw [← (List.cons.inj hr).1, String.ofList_toList]
  exact hk

theorem leadWord_of_detect {s : List Char} {st : Statement} (h : detect s = some st) :
    .ofList (leadWord (words s)) ∈ formWords := by
  obtain ⟨f, hf, hread⟩ := List.exists_of_findSome?_eq_some h
  exact leadWord_of_read hf hread

theorem isDdl_of_detect {s : List Char} {st : Statement} (h : detect s = some st) : isDdl s = true := by
  have hsub : formWords ⊆ ddlWords := by decide
  unfold isDdl
  rw [List.contains_iff_mem]
  exact hsub (leadWord_of_detect h)

/-- **The order of the forms.** At most one form reads a statement, so every order of the forms detects the same,
and what is detected is DDL. -/
theorem detect_perm (s : List Char) :
    forms.countP (fun f => (f.read (words s)).isSome) ≤ 1 ∧
      (∀ l : List Form, l.Perm forms → l.findSome? (·.read (words s)) = detect s) ∧
      ∀ st, detect s = some st → isDdl s = true := by
  have hapart := forms_apart (words s)
  refine ⟨countP_isSome_le_one hapart, fun l hl => findSome?_perm hapart hl, fun st hst => isDdl_of_detect hst⟩

/-- The forms in reverse, on a statement that starts like a policy and a trigger. -/
theorem detect_perm_reverse :
    let s := "drop trigger if exists policy on on.only".toList
    forms.reverse.Perm forms ∧
      forms.reverse.findSome? (·.read (words s)) = some (.dropTrigger "policy" "on.only") ∧
      detect s = some (.dropTrigger "policy" "on.only") ∧ isDdl s = true := by
  intro s
  obtain ⟨-, hany, hddl⟩ := detect_perm s
  have hs : detect s = some (.dropTrigger "policy" "on.only") := by decide +kernel
  have hperm := List.reverse_perm forms
  exact ⟨hperm, by rw [hany _ hperm, hs], hs, hddl _ hs⟩

end MigrationLint.Sql
