import MigrationLint.Proofs.WordTexts

/-!
# Gaps of a statement

A statement is read by its words, so it does not matter how long the gaps between them are and of which blanks.
Texts have the same words exactly if they differ in their gaps alone (`words_eq_iff`), and then they are
classified alike (`checkStatement_regapped`).
-/

namespace MigrationLint.Sql

open Text

/-- The texts are the same but for their gaps, which lie at the same places. -/
inductive Regapped : List Char → List Char → Prop
  | nil : Regapped [] []
  | char {c : Char} {s t : List Char} : isBlank c = false → Regapped s t → Regapped (c :: s) (c :: t)
  | gap {g g' s t : List Char} : IsGap g → IsGap g' → Regapped s t → Regapped (g ++ s) (g' ++ t)

/-- A gap ends the word before it; that more blanks follow makes no difference. -/
theorem words_gap_append {g : List Char} (hg : IsGap g) (s : List Char) :
    words (g ++ s) = [] :: words (trimStart s) := by
  obtain ⟨c, hc, hb⟩ := hg.starts
  rw [words_trimStart ⟨c, by rw [List.head?_append, hc]; rfl, hb⟩]
  congr 2
  exact List.dropWhile_append_of_pos hg.2

theorem words_trimStart_congr {s t : List Char} (h : words s = words t) :
    words (trimStart s) = words (trimStart t) := by
  obtain ⟨ws, hw⟩ := words_head s
  rw [skipBlank_words hw, skipBlank_words (h ▸ hw)]

theorem Regapped.words_eq {s t : List Char} (h : Regapped s t) : words s = words t := by
  induction h with
  | nil => rfl
  | char hc _ ih => rw [words_cons hc, words_cons hc, ih]
  | gap hg hg' _ ih => rw [words_gap_append hg, words_gap_append hg', words_trimStart_congr ih]

theorem words_blank_cons {c : Char} (hc : isBlank c = true) (s : List Char) :
    words (c :: s) = [] :: words (trimStart s) :=
  words_gap_append (g := [c]) ⟨by simp, by simpa using hc⟩ s

theorem words_keyword_trimStart {k : List Char} (hk : IsKeyword k) (s : List Char) :
    words (k ++ ' ' :: s) = k :: words (trimStart s) := by
  rw [words_word hk.not_blank, words_blank_cons (by decide), List.modifyHead_cons, List.append_nil]

theorem words_keyword {k : List Char} (hk : IsKeyword k) {s : List Char} (hs : Halts isBlank s) :
    words (k ++ ' ' :: s) = k :: words s := by
  rw [words_keyword_trimStart hk, trimStart, hs.dropWhile_eq_self]

theorem words_nil_ne (c : Char) (s : List Char) : words [] ≠ words (c :: s) := by
  intro h
  cases hc : isBlank c with
  | true =>
    obtain ⟨ws, hw⟩ := words_head (trimStart s)
    rw [words_blank_cons hc, hw] at h
    cases h
  | false =>
    obtain ⟨ws, hw⟩ := words_head s
    rw [words_cons hc, hw] at h
    cases h

theorem Regapped.blanks {c d : Char} (hc : isBlank c = true) (hd : isBlank d = true) {s t : List Char}
    (h : Regapped (trimStart s) (trimStart t)) : Regapped (c :: s) (d :: t) := by
  have gap : ∀ {c : Char}, isBlank c = true → ∀ s : List Char, IsGap (c :: s.takeWhile isBlank) := by
    intro c hc s
    exact ⟨by simp, List.forall_mem_cons.mpr ⟨hc, fun b hb => List.mem_takeWhile_imp hb⟩⟩
  have hgap := Regapped.gap (gap hc s) (gap hd t) h
  unfold trimStart at hgap
  rwa [List.cons_append, List.cons_append, List.takeWhile_append_dropWhile, List.takeWhile_append_dropWhile] at hgap

theorem regapped_of_words {s t : List Char} (h : words s = words t) : Regapped s t := by
  match s, t with
  | [], [] => exact .nil
  | [], d :: t => exact absurd h (words_nil_ne d t)
  | c :: s, [] => exact absurd h.symm (words_nil_ne c s)
  | c :: s, d :: t =>
    obtain ⟨ws, hs⟩ := words_head s
    obtain ⟨vs, ht⟩ := words_head t
    cases hc : isBlank c with
    | true =>
      cases hd : isBlank d with
      | true =>
        rw [words_blank_cons hc, words_blank_cons hd] at h
        have : (trimStart s).length ≤ s.length := (List.dropWhile_suffix isBlank).length_le
        exact .blanks hc hd (regapped_of_words (List.cons.inj h).2)
      | false =>
        rw [words_blank_cons hc, words_cons hd, ht] at h
        cases (List.cons.inj h).1
    | false =>
      cases hd : isBlank d with
      | true =>
        rw [words_cons hc, words_blank_cons hd, hs] at h
        cases (List.cons.inj h).1
      | false =>
        rw [words_cons hc, words_cons hd, hs, ht, List.modifyHead_cons, List.modifyHead_cons] at h
        obtain ⟨hword, hws⟩ := List.cons.inj h
        obtain ⟨rfl, hrest⟩ := List.cons.inj hword
        exact .char hc (regapped_of_words (by rw [hs, ht, hrest, hws]))
termination_by s.length

/-- All that the gaps leave of a text are its words. -/
theorem words_eq_iff {s t : List Char} : words s = words t ↔ Regapped s t :=
  ⟨regapped_of_words, Regapped.words_eq⟩

/-! ## What is read by words -/

section
variable {s t : List Char} (h : words s = words t)
include h

theorem schemaRefs_congr : schemaRefs s = schemaRefs t := by
  have hblocks : blocks s = blocks t := by
    unfold blocks
    rw [h]
  unfold schemaRefs
  rw [tokens_blocks, hblocks, ← tokens_blocks]

theorem foreignKeys_congr : foreignKeys s = foreignKeys t := by
  unfold foreignKeys
  rw [h]

theorem detect_congr : detect s = detect t := by
  unfold detect
  rw [h]

theorem isDdl_congr : isDdl s = isDdl t := by
  unfold isDdl
  rw [h]

theorem checkStatement_congr (p : Policy) : checkStatement p s = checkStatement p t := by
  unfold checkStatement schemaProblems formProblems foreignKeyProblems
  rw [schemaRefs_congr h, foreignKeys_congr h, detect_congr h, isDdl_congr h]

end

/-- **Layout.** Statements that differ in their gaps alone are classified alike: both are DDL or neither is, what
is detected in them is the same, and they have the same problems in the same order. -/
theorem checkStatement_regapped (p : Policy) {s t : List Char} (h : Regapped s t) :
    isDdl s = isDdl t ∧ detect s = detect t ∧ checkStatement p s = checkStatement p t :=
  ⟨isDdl_congr h.words_eq, detect_congr h.words_eq, checkStatement_congr h.words_eq p⟩

/-- A trigger on two lines and on three, with ideographic and other spaces in the gaps and around the dot. -/
theorem checkStatement_regapped_trigger :
    let p : Policy := ⟨"cb_", ["public"], ["auth"], []⟩
    let s := "create trigger t before\nx on auth . f".toList
    let t := "create\n trigger\u3000t\tbefore x\r\non\u2003auth\u0085.\u00a0f".toList
    Regapped s t ∧ detect t = some (.createTrigger "t" "auth") ∧
      checkStatement p t =
        [.blockedSchema "auth", .missingPrefix "trigger" (some "t"), .missingPrefix "table" (some "auth")] := by
  intro p s t
  have h : Regapped s t := words_eq_iff.mp (by decide +kernel)
  obtain ⟨-, hdetect, hcheck⟩ := checkStatement_regapped p h
  refine ⟨h, ?_, ?_⟩
  · rw [← hdetect]
    decide +kernel
  · rw [← hcheck]
    decide +kernel

end MigrationLint.Sql
