import MigrationLint.Files.Access

/-!
# Files of a tree

A file that is written can be read at the same path, through the same links, and holds what was written
(`FileTree.read_write`).
-/

namespace MigrationLint

/-! ## Lists of entries -/

section
variable {κ ν : Type} [BEq κ] [LawfulBEq κ] [DecidableEq κ]

theorem lookup_cons_ite (p q : κ) (e : ν) (es : List (κ × ν)) :
    ((p, e) :: es).lookup q = if q = p then some e else es.lookup q := by
  rw [List.lookup_cons]
  split <;> simp_all

theorem lookup_filter (es : List (κ × ν)) (p q : κ) :
    (es.filter (·.1 ≠ p)).lookup q = if q = p then none else es.lookup q := by
  induction es with
  | nil => simp
  | cons e es ih =>
    by_cases he : e.1 = p
    · rw [List.filter_cons_of_neg (by simpa using he), ih, lookup_cons_ite, he]
      split <;> rfl
    · rw [List.filter_cons_of_pos (by simpa using he), lookup_cons_ite, lookup_cons_ite, ih]
      split
      · rename_i hq
        rw [if_neg (hq ▸ he)]
      · rfl

end

namespace FileTree

variable {t t' : FileTree} {p q : Place} {names : List String} {bytes : ByteArray}

/-! ## Entries -/

theorem entry?_set (t : FileTree) (p q : Place) (e : Entry) :
    FileTree.entry? (t.set p e) q = if q = p then some e else t.entry? q := by
  rw [set, FileTree.entry?, List.lookup_append, lookup_filter, lookup_cons_ite]
  split <;> simp [ FileTree.entry?]

/-! ## Looking up -/

/-- A name that a look-up takes as the name of an entry. -/
structure Plain (name : String) : Prop where
  ne_empty : name ≠ ""
  ne_dot : name ≠ "."
  ne_up : name ≠ ".."
  fits : name.utf8ByteSize ≤ nameLimit

theorem plain_of_tests {name : String} (h : ¬ (name = "" ∨ name = ".")) (hup : name ≠ "..")
    (hs : ¬ nameLimit < name.utf8ByteSize) : Plain name :=
  ⟨(not_or.mp h).1, (not_or.mp h).2, hup, Nat.not_lt.mp hs⟩

section
variable (t) (n : Nat) (p) {name : String} (rest : List String)

theorem follow_stay (h : name = "" ∨ name = ".") : t.follow n p (name :: rest) = t.follow n p rest := by
  cases n <;> rw [follow, walk, if_pos h]

theorem follow_up : t.follow n p (".." :: rest) = t.follow n p.dropLast rest := by
  cases n <;> rw [follow, walk, if_neg (by decide), if_pos rfl]

section
variable (h : Plain name)
include h

theorem follow_down (he : t.entry? (p ++ [name]) = some .folder) :
    t.follow n p (name :: rest) = t.follow n (p ++ [name]) rest := by
  cases n <;> rw [follow, walk, if_neg (by simp [h.ne_empty, h.ne_dot]), if_neg h.ne_up, if_neg (by simp [h.fits]), he]

theorem follow_jump {target : String} (he : t.entry? (p ++ [name]) = some (.link target)) :
    t.follow (n + 1) p (name :: rest) = t.follow n (linkStart p target) (steps target ++ rest) := by
  rw [follow, walk, if_neg (by simp [h.ne_empty, h.ne_dot]), if_neg h.ne_up, if_neg (by simp [h.fits]), he]

theorem follow_file (he : t.entry? (p ++ [name]) = some (.file bytes)) :
    t.follow n p [name] = .ok (.file bytes) := by
  cases n <;>
    rw [follow, walk, if_neg (by simp [h.ne_empty, h.ne_dot]), if_neg h.ne_up, if_neg (by simp [h.fits]), he] <;>
    rfl

end

end

/-! ## Writing and reading -/

/-- There is a file at the place or nothing. -/
def Writable (t : FileTree) (p : Place) : Prop := ∀ e, t.entry? p = some e → ∃ bytes, e = .file bytes

theorem Writable.entry?_set (hq : t.Writable q) {e : Entry} (hp : t.entry? p = some e)
    (he : ∀ bytes, e ≠ .file bytes) (e' : Entry) : FileTree.entry? (t.set q e') p = some e := by
  rw [FileTree.entry?_set, if_neg, hp]
  rintro rfl
  obtain ⟨bytes, rfl⟩ := hq e hp
  exact he bytes rfl

/-- The steps go to a place where a file can be written, and follow at most so many links. -/
inductive Leads (t : FileTree) (q : Place) : Nat → Place → List String → Prop
  | here {n : Nat} {p : Place} {last : String} :
      Plain last → t.Writable (p ++ [last]) → p ++ [last] = q → Leads t q n p [last]
  | stay {n : Nat} {p : Place} {name : String} {rest : List String} :
      name = "" ∨ name = "." → Leads t q n p rest → Leads t q n p (name :: rest)
  | up {n : Nat} {p : Place} {rest : List String} : Leads t q n p.dropLast rest → Leads t q n p (".." :: rest)
  | down {n : Nat} {p : Place} {name : String} {rest : List String} :
      Plain name → t.entry? (p ++ [name]) = some .folder → Leads t q n (p ++ [name]) rest →
        Leads t q n p (name :: rest)
  | jump {n : Nat} {p : Place} {name target : String} {rest : List String} :
      Plain name → t.entry? (p ++ [name]) = some (.link target) →
        Leads t q n (linkStart p target) (steps target ++ rest) → Leads t q (n + 1) p (name :: rest)

theorem walkTo_leads {n : Nat} {follow : Place → List String → Except FileError Place}
    (hf : ∀ p names, follow p names = .ok q → ∃ m, n = m + 1 ∧ Leads t q m p names)
    (h : t.walkTo follow p names = .ok q) : Leads t q n p names := by
  fun_induction walkTo t follow p names with
  | case5 p last hn hs target he =>
    obtain ⟨m, rfl, hl⟩ := hf _ _ h
    rw [← or_assoc, not_or] at hn
    exact .jump (plain_of_tests hn.1 hn.2 hs) he (by simpa using hl)
  | case6 p last hn hs hfolder hlink =>
    rw [← or_assoc, not_or] at hn
    refine .here (plain_of_tests hn.1 hn.2 hs) (fun e he => ?_) (Except.ok.inj h)
    cases e with
    | file bytes => exact ⟨bytes, rfl⟩
    | link target => exact (hlink target he).elim
    | folder => exact (hfolder he).elim
  | case8 p name next rest _ hn ih => exact .stay hn (ih h)
  | case9 p next rest _ _ ih => exact .up (ih h)
  | case12 p name next rest _ hn hup hs he ih => exact .down (plain_of_tests hn hup hs) he (ih h)
  | case13 p name next rest _ hn hup hs target he =>
    obtain ⟨m, rfl, hl⟩ := hf _ _ h
    exact .jump (plain_of_tests hn hup hs) he hl
  | _ => cases h

theorem followTo_leads {n : Nat} (h : t.followTo n p names = .ok q) : Leads t q n p names := by
  induction n generalizing p names with
  | zero => exact walkTo_leads (fun _ _ h => by cases h) h
  | succ n ih => exact walkTo_leads (fun _ _ h => ⟨n, rfl, ih h⟩) h

theorem Leads.writable {n : Nat} (h : Leads t q n p names) : t.Writable q := by
  induction h with
  | here _ hw he => exact he ▸ hw
  | stay _ _ ih => exact ih
  | up _ ih => exact ih
  | down _ _ _ ih => exact ih
  | jump _ _ _ ih => exact ih

/-- What is written changes nothing on the way to it. -/
theorem Leads.follow_set {n : Nat} (h : Leads t q n p names) (bytes : ByteArray) :
    (t.set q (.file bytes)).follow n p names = .ok (.file bytes) := by
  have hq := h.writable
  induction h with
  | here hlast _ he => exact follow_file _ _ _ hlast (by rw [FileTree.entry?_set, if_pos he])
  | stay hname _ ih => rw [follow_stay _ _ _ _ hname, ih]
  | up _ ih => rw [follow_up, ih]
  | down hname he _ ih => rw [follow_down _ _ _ _ hname (hq.entry?_set he (by simp) _), ih]
  | jump hname he _ ih => rw [follow_jump _ _ _ _ hname (hq.entry?_set he (by simp) _), ih]

/-- A file that is written is read at the same path. -/
theorem read_write {path : String} (h : t.write path bytes = .ok t') : t'.read path = .ok bytes := by
  unfold write at h
  split at h
  · cases h
  · split at h
    · cases h
    · rename_i hne hlimit
      cases hq : t.followTo linkLimit (t.start path) (steps path) with
      | error e =>
        rw [hq] at h
        cases h
      | ok q =>
        rw [hq] at h
        obtain rfl : t.set q (.file bytes) = t' := Except.ok.inj h
        have hfollow := (followTo_leads hq).follow_set bytes
        have hstart : (t.set q (.file bytes)).start path = t.start path := rfl
        rw [read, find, if_neg hne, if_neg hlimit, hstart, hfollow]

end FileTree

/-! ## Texts of files -/

theorem decodeText_toUTF8 (s : String) : decodeText s.toUTF8 = .ok s := by
  rw [decodeText, String.fromUTF8?, dif_pos (show s.toUTF8.IsValidUTF8 from s.isValidUTF8)]
  rfl

theorem decodeText_of_ne {bytes : ByteArray} (h : ∀ s : String, s.toUTF8 ≠ bytes) :
    decodeText bytes = .error .notText := by
  rw [decodeText, String.fromUTF8?, dif_neg fun hv => h (String.fromUTF8 bytes hv) rfl]

end MigrationLint
