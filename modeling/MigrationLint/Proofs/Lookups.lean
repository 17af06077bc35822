import MigrationLint.Proofs.Listings

/-!
# Look-ups below a directory

A look-up of a path that is joined from a directory and names goes first where that of the directory goes, then
through the folders below it (`FileTree.read_below`).
-/

namespace MigrationLint

open Text

/-! ## Steps of joined paths -/

/-- The names on a path, without what a slash at the end adds. -/
def stepNames (path : String) : List String :=
  ((pieces (· == '/') path.toList).filter (!·.isEmpty)).map .ofList

theorem steps_eq (path : String) :
    steps path = stepNames path ++ if path.toList.getLast? = some '/' then [""] else [] := by
  unfold steps
  dsimp only
  split
  · rfl
  · exact (List.append_nil _).symm

theorem stepNames_joinPath (dir : String) {name : String} (h : EntryName name) :
    stepNames (joinPath dir name) = stepNames dir ++ [name] := by
  obtain ⟨front, -, hjoin, hdir⟩ := pieces_joinPath dir h.no_slash
  have hend : ((if dir.toList.getLast? = some '/' then [[]] else []) : List (List Char)).filter (!·.isEmpty) = [] :=
    by split <;> rfl
  unfold stepNames
  rw [hjoin, hdir, List.filter_append, List.filter_append, hend, List.append_nil, List.map_append]
  simp [h.ne_empty]

theorem getLast?_joinPath (dir : String) {name : String} (h : EntryName name) :
    (joinPath dir name).toList.getLast? ≠ some '/' := by
  obtain ⟨s, c, hc⟩ := (List.eq_nil_or_concat name.toList).resolve_left (by simpa using h.ne_empty)
  have hslash : c ≠ '/' := by
    rintro rfl
    exact h.no_slash (by simp [hc])
  have hlast : name.toList.getLast? = some c := by simp [hc]
  unfold joinPath
  split <;> simp [List.getLast?_append, List.getLast?_cons, hlast, hslash]

theorem steps_joinPaths (dir : String) {names : List String} (hne : names ≠ [])
    (h : ∀ name ∈ names, EntryName name) :
    steps (joinPaths dir names) = stepNames dir ++ names := by
  induction names generalizing dir with
  | nil => exact absurd rfl hne
  | cons name names ih =>
    rw [List.forall_mem_cons] at h
    have hjoin : joinPaths dir (name :: names) = joinPaths (joinPath dir name) names := rfl
    rw [hjoin]
    by_cases hnames : names = []
    · rw [hnames, joinPaths, List.foldl_nil, steps_eq, if_neg (getLast?_joinPath dir h.1), List.append_nil,
        stepNames_joinPath dir h.1]
    · rw [ih _ hnames h.2, stepNames_joinPath dir h.1, List.append_assoc, List.singleton_append]

theorem start_joinPaths (t : FileTree) {dir : String} (hd : dir ≠ "") (names : List String) :
    t.start (joinPaths dir names) = t.start dir := by
  have habs : isAbsolute (joinPaths dir names) = isAbsolute dir := by
    induction names generalizing dir with
    | nil => rfl
    | cons name names ih => exact (ih (joinPath_ne hd)).trans (isAbsolute_joinPath hd)
  rw [FileTree.start, FileTree.start, habs]

/-! ## Slashes at the end -/

/-- The path with so many slashes at its end. -/
def slashed (path : String) : Nat → String
  | 0 => path
  | n + 1 => (slashed path n).push '/'

theorem utf8ByteSize_slashed (path : String) (n : Nat) : (slashed path n).utf8ByteSize = path.utf8ByteSize + n := by
  induction n with
  | zero => rfl
  | succ n ih =>
    rw [slashed, String.utf8ByteSize_push, ih, Nat.add_assoc]
    rfl

theorem stepNames_slashed (path : String) (n : Nat) : stepNames (slashed path n) = stepNames path := by
  induction n with
  | zero => rfl
  | succ n ih =>
    rw [← ih, stepNames, stepNames, slashed, String.toList_push, pieces_append rfl, List.filter_append]
    simp [pieces]

theorem joinPaths_slashed (path name : String) {n : Nat} (hn : n ≠ 0) :
    joinPaths (slashed path n) [name] = slashed path n ++ name := by
  obtain ⟨n, rfl⟩ := Nat.exists_eq_succ_of_ne_zero hn
  exact if_pos (by rw [slashed, String.toList_push, List.getLast?_concat])

theorem slashed_ne {path : String} (h : path ≠ "") (n : Nat) : slashed path n ≠ "" := by
  cases n with
  | zero => exact h
  | succ n => exact String.push_ne_empty

theorem isAbsolute_slashed {path : String} (h : path ≠ "") (n : Nat) :
    isAbsolute (slashed path n) = isAbsolute path := by
  induction n with
  | zero => rfl
  | succ n ih =>
    have hne : (slashed path n).toList ≠ [] := by simpa using slashed_ne h n
    rw [← ih, isAbsolute, isAbsolute, slashed, String.toList_push, List.head?_append_of_ne_nil _ hne]

namespace FileTree

/-! ## Files below a directory -/

section
variable {t : FileTree} {p q : Place} {names : List String} {bytes : ByteArray}

/-- The steps go to a folder, and so many of the links that may be followed are left there. -/
inductive Arrives (t : FileTree) (q : Place) (m : Nat) : Nat → Place → List String → Prop
  | here : Arrives t q m m q []
  | stay {n : Nat} {p : Place} {name : String} {rest : List String} :
      name = "" ∨ name = "." → Arrives t q m n p rest → Arrives t q m n p (name :: rest)
  | up {n : Nat} {p : Place} {rest : List String} :
      Arrives t q m n p.dropLast rest → Arrives t q m n p (".." :: rest)
  | down {n : Nat} {p : Place} {name : String} {rest : List String} :
      Plain name → t.entry? (p ++ [name]) = some .folder → Arrives t q m n (p ++ [name]) rest →
        Arrives t q m n p (name :: rest)
  | jump {n : Nat} {p : Place} {name target : String} {rest : List String} :
      Plain name → t.entry? (p ++ [name]) = some (.link target) →
        Arrives t q m n (linkStart p target) (steps target ++ rest) → Arrives t q m (n + 1) p (name :: rest)

theorem walk_arrives {n : Nat} {follow : Place → List String → Except FileError Found}
    (hf : ∀ p names, follow p names = .ok (.folder q) → ∃ k m, n = k + 1 ∧ Arrives t q m k p names)
    (h : t.walk follow p names = .ok (.folder q)) : ∃ m, Arrives t q m n p names := by
  fun_induction walk t follow p names with
  | case1 p =>
    obtain rfl : p = q := by simpa using h
    exact ⟨n, .here⟩
  | case2 p name rest hn ih => exact (ih h).imp fun _ => .stay hn
  | case3 p rest _ ih => exact (ih h).imp fun _ => .up
  | case6 p name rest hn hup hs he ih => exact (ih h).imp fun _ => .down (plain_of_tests hn hup hs) he
  | case7 p name rest hn hup hs target he =>
    obtain ⟨k, m, rfl, ha⟩ := hf _ _ h
    exact ⟨m, .jump (plain_of_tests hn hup hs) he ha⟩
  | _ => cases h

theorem follow_arrives {n : Nat} (h : t.follow n p names = .ok (.folder q)) : ∃ m, Arrives t q m n p names := by
  induction n generalizing p names with
  | zero => exact walk_arrives (fun _ _ h => by cases h) h
  | succ n ih =>
    refine walk_arrives (fun p names h => ?_) h
    obtain ⟨m, ha⟩ := ih h
    exact ⟨n, m, rfl, ha⟩

theorem Arrives.follow_append {m n : Nat} (h : Arrives t q m n p names) (rest : List String) :
    t.follow n p (names ++ rest) = t.follow m q rest := by
  induction h with
  | here => rfl
  | stay hname _ ih => rw [List.cons_append, follow_stay _ _ _ _ hname, ih]
  | up _ ih => rw [List.cons_append, follow_up, ih]
  | down hname he _ ih => rw [List.cons_append, follow_down _ _ _ _ hname he, ih]
  | jump hname he _ ih => rw [List.cons_append, follow_jump _ _ _ _ hname he, ← List.append_assoc, ih]

/-- A slash at the end of a path to a folder does not matter. -/
theorem Arrives.of_slash {m n : Nat} (h : Arrives t q m n p (names ++ [""])) : Arrives t q m n p names := by
  generalize hl : names ++ [""] = l at h
  induction h generalizing names with
  | here => simp at hl
  | stay hname ha ih =>
    cases names with
    | nil =>
      obtain ⟨-, rfl⟩ := List.cons.inj hl
      exact ha
    | cons a names =>
      obtain ⟨rfl, htail⟩ := List.cons.inj hl
      exact .stay hname (ih htail)
  | up _ ih =>
    cases names with
    | nil => exact absurd (List.cons.inj hl).1 (by decide)
    | cons a names =>
      obtain ⟨rfl, htail⟩ := List.cons.inj hl
      exact .up (ih htail)
  | down hname he _ ih =>
    cases names with
    | nil => exact absurd (List.cons.inj hl).1.symm hname.ne_empty
    | cons a names =>
      obtain ⟨rfl, htail⟩ := List.cons.inj hl
      exact .down hname he (ih htail)
  | jump hname he _ ih =>
    cases names with
    | nil => exact absurd (List.cons.inj hl).1.symm hname.ne_empty
    | cons a names =>
      obtain ⟨rfl, rfl⟩ := List.cons.inj hl
      exact .jump hname he (ih (List.append_assoc ..))

theorem arrives_of_find {dir : String} (h : t.find dir = .ok (.folder p)) :
    ∃ m, Arrives t p m linkLimit (t.start dir) (stepNames dir) := by
  have hfollow : t.follow linkLimit (t.start dir) (steps dir) = .ok (.folder p) := by
    unfold find at h
    rw [if_neg (ne_empty_of_find h)] at h
    split at h
    · cases h
    · exact h
  obtain ⟨m, ha⟩ := follow_arrives hfollow
  rw [steps_eq] at ha
  split at ha
  · exact ⟨m, ha.of_slash⟩
  · exact ⟨m, by rwa [List.append_nil] at ha⟩

/-- A directory is found at its path with any number of slashes behind it. -/
theorem find_slashed {dir : String} (h : t.find dir = .ok (.folder p)) {n : Nat}
    (hn : (slashed dir n).utf8ByteSize < pathLimit) : t.find (slashed dir n) = .ok (.folder p) := by
  have hd := ne_empty_of_find h
  obtain ⟨m, harrives⟩ := arrives_of_find h
  have hstart : t.start (slashed dir n) = t.start dir := by rw [start, start, isAbsolute_slashed hd]
  rw [find, if_neg (slashed_ne hd n), if_neg (Nat.not_le.mpr hn), hstart, steps_eq, stepNames_slashed,
    harrives.follow_append]
  split
  · rw [follow_stay _ _ _ _ (.inl rfl)]
    cases m <;> rfl
  · cases m <;> rfl

section
variable (ht : t.Sound)
include ht

theorem Reaches.plain {name : String} {e : Entry} (h : t.Reaches p names e) (hname : name ∈ names) : Plain name :=
  (ht.entryName_of_reaches h name hname).toPlain

theorem Reaches.follow_folder (h : t.Reaches p names .folder) (n : Nat) (rest : List String) :
    t.follow n p (names ++ rest) = t.follow n (p ++ names) rest := by
  generalize he : Entry.folder = e at h
  induction h generalizing rest with
  | @child name e hchild =>
    subst he
    exact follow_down _ _ _ _ (Reaches.plain ht (.child hchild) List.mem_cons_self) hchild
  | @deeper names name e hfolder hentry ih =>
    subst he
    have hplain : Plain name := Reaches.plain ht (.deeper hfolder hentry) (by simp)
    rw [List.append_assoc, ih _ rfl, List.singleton_append, follow_down _ _ _ _ hplain hentry, List.append_assoc]

theorem Reaches.follow_file (h : t.Reaches p names (.file bytes)) (n : Nat) :
    t.follow n p names = .ok (.file bytes) := by
  cases h with
  | child hchild => exact FileTree.follow_file _ _ _ (Reaches.plain ht (.child hchild) List.mem_cons_self) hchild
  | @deeper names name _ hfolder hentry =>
    rw [hfolder.follow_folder ht]
    exact FileTree.follow_file _ _ _ (Reaches.plain ht (.deeper hfolder hentry) (by simp)) hentry

/-- A file below a directory is read at the joined path, unless that is too long to be opened. -/
theorem read_below {dir : String} (hp : t.find dir = .ok (.folder p)) (h : t.Reaches p names (.file bytes)) :
    t.read (joinPaths dir names) =
      if pathLimit ≤ (joinPaths dir names).utf8ByteSize then .error .nameTooLong else .ok bytes := by
  have hd := ne_empty_of_find hp
  have hentry := ht.entryName_of_reaches h
  obtain ⟨m, harrives⟩ := arrives_of_find hp
  -- the joined path takes the steps of the directory, without the empty one of a slash at its end, and then the names
  rw [read, find, if_neg (joinPaths_ne hd names), start_joinPaths t hd, steps_joinPaths dir h.ne_nil hentry,
    harrives.follow_append, h.follow_file ht]
  by_cases hlong : pathLimit ≤ (joinPaths dir names).utf8ByteSize
  · simp only [if_pos hlong]
  · simp only [if_neg hlong]

end

end

end FileTree

end MigrationLint
