import MigrationLint.Proofs.Directories

/-!
# Trees that differ in one file

What one file holds matters only where it is read. In trees that agree but for it the same paths lead to the same
places (`AgreeBut.find`, `AgreeBut.write`), and the scans of a directory come to the same if the file is no migration
file (`scanDirectory_set`).
-/

namespace MigrationLint

namespace FileTree

/-- The trees have the same entries but for the file at the place. -/
structure AgreeBut (q : Place) (b b' : ByteArray) (t t' : FileTree) : Prop where
  cwd : t'.cwd = t.cwd
  elsewhere : ∀ p, p ≠ q → t'.entry? p = t.entry? p
  file : t.entry? q = some (.file b)
  file' : t'.entry? q = some (.file b')

/-- Two look-ups come to the same, or both to the file. -/
inductive SameFound (b b' : ByteArray) : Except FileError Found → Except FileError Found → Prop
  | same (x : Except FileError Found) : SameFound b b' x x
  | file : SameFound b b' (.ok (.file b)) (.ok (.file b'))

section
variable {q : Place} {b b' : ByteArray} {t t' : FileTree} (h : AgreeBut q b b' t t')
include h

theorem AgreeBut.entry_cases (p : Place) :
    t'.entry? p = t.entry? p ∨ t.entry? p = some (.file b) ∧ t'.entry? p = some (.file b') := by
  by_cases hp : p = q
  · exact .inr ⟨hp ▸ h.file, hp ▸ h.file'⟩
  · exact .inl (h.elsewhere p hp)

/-! ## Looking up -/

theorem AgreeBut.walk {follow follow' : Place → List String → Except FileError Found}
    (hf : ∀ p names, SameFound b b' (follow p names) (follow' p names)) (p : Place) (names : List String) :
    SameFound b b' (t.walk follow p names) (t'.walk follow' p names) := by
  induction names generalizing p with
  | nil => exact .same _
  | cons name rest ih =>
    rw [FileTree.walk, FileTree.walk]
    split
    · exact ih p
    split
    · exact ih p.dropLast
    split
    · exact .same _
    rcases h.entry_cases (p ++ [name]) with he | ⟨he, he'⟩
    · rw [he]
      cases t.entry? (p ++ [name]) with
      | none => exact .same _
      | some e =>
        cases e with
        | folder => exact ih (p ++ [name])
        | link target => exact hf _ _
        | file bytes => exact .same _
    · rw [he, he']
      dsimp only
      split
      · exact .file
      · exact .same _

theorem AgreeBut.follow (n : Nat) (p : Place) (names : List String) :
    SameFound b b' (t.follow n p names) (t'.follow n p names) := by
  induction n generalizing p names with
  | zero => exact h.walk (fun _ _ => .same _) p names
  | succ n ih => exact h.walk ih p names

/-- A path leads to the same in both trees. -/
theorem AgreeBut.find (path : String) : SameFound b b' (t.find path) (t'.find path) := by
  rw [FileTree.find, FileTree.find, start, start, h.cwd]
  split
  · exact .same _
  split
  · exact .same _
  · exact h.follow _ _ _

theorem AgreeBut.read (path : String) : t'.read path = t.read path ∨ t.read path = .ok b ∧ t'.read path = .ok b' := by
  have hfind := h.find path
  rw [FileTree.read, FileTree.read]
  generalize t.find path = x at hfind
  generalize t'.find path = x' at hfind
  cases hfind with
  | same => exact .inl rfl
  | file => exact .inr ⟨rfl, rfl⟩

theorem AgreeBut.folder?_eq (path : String) : t'.folder? path = t.folder? path := by
  have hfind := h.find path
  rw [folder?, folder?]
  generalize t.find path = x at hfind
  generalize t'.find path = x' at hfind
  cases hfind <;> rfl

/-! ## Writing -/

theorem AgreeBut.walkTo {follow follow' : Place → List String → Except FileError Place}
    (hf : ∀ p names, follow' p names = follow p names) (p : Place) (names : List String) :
    t'.walkTo follow' p names = t.walkTo follow p names := by
  induction names generalizing p with
  | nil => rfl
  | cons name rest ih =>
    cases rest with
    | nil =>
      rw [FileTree.walkTo, FileTree.walkTo]
      rcases h.entry_cases (p ++ [name]) with he | ⟨he, he'⟩
      · rw [he]
        simp only [hf]
      · rw [he, he']
    | cons next rest =>
      rw [FileTree.walkTo, FileTree.walkTo]
      simp only [hf, ih]
      rcases h.entry_cases (p ++ [name]) with he | ⟨he, he'⟩
      · rw [he]
      · rw [he, he']

theorem AgreeBut.followTo (n : Nat) (p : Place) (names : List String) :
    t'.followTo n p names = t.followTo n p names := by
  induction n generalizing p names with
  | zero => exact h.walkTo (fun _ _ => rfl) p names
  | succ n ih => exact h.walkTo ih p names

/-- A file is written at the same place in both trees, or in neither. -/
theorem AgreeBut.write (path : String) (bytes : ByteArray) :
    (∃ e, t.write path bytes = .error e ∧ t'.write path bytes = .error e) ∨
      ∃ p, t.write path bytes = .ok (t.set p (.file bytes)) ∧ t'.write path bytes = .ok (t'.set p (.file bytes)) := by
  rw [FileTree.write, FileTree.write, start, start, h.cwd]
  split
  · exact .inl ⟨_, rfl, rfl⟩
  split
  · exact .inl ⟨_, rfl, rfl⟩
  · rw [h.followTo]
    cases t.followTo linkLimit (if isAbsolute path then [] else t.cwd) (steps path) with
    | error e => exact .inl ⟨e, rfl, rfl⟩
    | ok p => exact .inr ⟨p, rfl, rfl⟩

end

/-! ## Rewriting a file -/

theorem Leads.holds {t : FileTree} {q p : Place} {names : List String} {n : Nat} {b : ByteArray}
    (h : Leads t q n p names) (hread : t.follow n p names = .ok (.file b)) : t.entry? q = some (.file b) := by
  induction h with
  | @here n p last hlast hw he =>
    subst he
    cases hentry : t.entry? (p ++ [last]) with
    | none =>
      cases n <;>
        · rw [follow, FileTree.walk, if_neg (by simp [hlast.ne_empty, hlast.ne_dot]), if_neg hlast.ne_up,
            if_neg (by simp [hlast.fits]), hentry] at hread
          cases hread
    | some e =>
      obtain ⟨bytes, rfl⟩ := hw e hentry
      rw [follow_file _ _ _ hlast hentry] at hread
      cases hread
      rfl
  | stay hname _ ih => exact ih (by rwa [follow_stay _ _ _ _ hname] at hread)
  | up _ ih => exact ih (by rwa [follow_up] at hread)
  | down hname he _ ih => exact ih (by rwa [follow_down _ _ _ _ hname he] at hread)
  | jump hname he _ ih => exact ih (by rwa [follow_jump _ _ _ _ hname he] at hread)

/-- The path leads to no file that has the name of a migration file. -/
def Apart (t : FileTree) (path : String) : Prop :=
  ∀ p, t.followTo linkLimit (t.start path) (steps path) = .ok p → p.getLast?.any isSqlName = false

/-- A file that is read at a path and written there is replaced at its place. -/
theorem exists_set_of_write {t t' : FileTree} {path : String} {b b' : ByteArray} (hread : t.read path = .ok b)
    (hwrite : t.write path b' = .ok t') :
    ∃ q, t.followTo linkLimit (t.start path) (steps path) = .ok q ∧ t.entry? q = some (.file b) ∧
      t' = t.set q (.file b') := by
  unfold FileTree.write at hwrite
  split at hwrite
  · cases hwrite
  split at hwrite
  · cases hwrite
  rename_i hne hlimit
  cases hq : t.followTo linkLimit (t.start path) (steps path) with
  | error e =>
    rw [hq] at hwrite
    cases hwrite
  | ok q =>
    rw [hq] at hwrite
    have hfollow : t.follow linkLimit (t.start path) (steps path) = .ok (.file b) := by
      rw [FileTree.read, FileTree.find, if_neg hne, if_neg hlimit] at hread
      split at hread
      · rename_i h
        rw [h, Except.ok.inj hread]
      · cases hread
      · cases hread
    exact ⟨q, rfl, (followTo_leads hq).holds hfollow, (Except.ok.inj hwrite).symm⟩

section
variable {t : FileTree} {q : Place} {b : ByteArray} (hq : t.entry? q = some (.file b)) (b' : ByteArray)
include hq

theorem agreeBut_set : AgreeBut q b b' t (t.set q (.file b')) where
  cwd := rfl
  elsewhere p hp := by rw [entry?_set, if_neg hp]
  file := hq
  file' := by rw [entry?_set, if_pos rfl]

variable (ht : t.Sound)
include ht

theorem Sound.set : (t.set q (.file b')).Sound := by
  have hmem := mem_of_lookup hq
  have hentry {p : Place} (hp : t.entry? p = some .folder) : FileTree.entry? (t.set q (.file b')) p = some .folder := by
    rw [(agreeBut_set hq b').elsewhere p _, hp]
    rintro rfl
    cases hq.symm.trans hp
  have hcases {e : Place × Entry} (he : e ∈ (t.set q (.file b')).entries) :
      e ∈ t.entries ∨ e = (q, .file b') := by
    rcases List.mem_append.mp he with he | he
    · exact .inl (List.mem_filter.mp he).1
    · exact .inr (List.mem_singleton.mp he)
  refine ⟨?_, fun e he => ?_, fun e he => ?_, fun e he => ?_⟩
  · rw [FileTree.set, List.map_append, List.nodup_append]
    refine ⟨ht.nodup.sublist (List.filter_sublist.map _), by simp, fun a ha c hc => ?_⟩
    obtain ⟨e, he, rfl⟩ := List.mem_map.mp ha
    obtain rfl := List.mem_singleton.mp hc
    simpa using (List.mem_filter.mp he).2
  · rcases hcases he with he | rfl
    · exact ht.below_root e he
    · exact ht.below_root (q, .file b) hmem
  · rcases hcases he with he | rfl
    · exact ht.entryName e he
    · exact ht.entryName (q, .file b) hmem
  · rcases hcases he with he | rfl
    · exact (ht.in_folder e he).imp_right hentry
    · exact (ht.in_folder (q, .file b) hmem).imp_right hentry

/-- The file is the only item of a listing that may have moved. -/
theorem filter_listingAt_set {p : Place} {keep : List String × Kind → Bool}
    (hkeep : ∀ names, names ≠ [] → p ++ names = q → keep (names, .file) = false) :
    ((t.set q (.file b')).listingAt p).filter keep = (t.listingAt p).filter keep := by
  have hnone (bytes : ByteArray) :
      (((below? p q).map fun names => (names, (Entry.file bytes).kind)).filter keep) = none := by
    cases hbelow : below? p q with
    | none => rfl
    | some names =>
      obtain ⟨hplace, hne⟩ := below?_eq_some_iff.mp hbelow
      rw [Option.map_some, Option.filter_some, Entry.kind, hkeep names hne hplace.symm]
      rfl
  rw [listingAt, listingAt, FileTree.set, List.filter_filterMap, List.filter_filterMap, List.filterMap_append,
    List.filterMap_filter, List.filterMap_cons, hnone b']
  refine (List.append_nil _).trans (List.filterMap_congr fun e he => ?_)
  by_cases hplace : e.1 = q
  · obtain ⟨p', e'⟩ := e
    obtain rfl : p' = q := hplace
    obtain rfl : .file b = e' := Option.some.inj (hq.symm.trans (ht.entry?_of_mem he))
    rw [hnone b]
    simp
  · simp [hplace]

/-! ## Scans -/

variable (hname : q.getLast?.any isSqlName = false)
include hname

theorem discover_set (dir : String) :
    ((t.set q (.file b')).listing dir).map (Listing.migrations dir) = (t.listing dir).map (Listing.migrations dir) := by
  rw [listing, listing, (agreeBut_set hq b').folder?_eq]
  cases t.folder? dir with
  | none => rfl
  | some p =>
    have hlong : ((t.set q (.file b')).listingAt p).find? (isTooLong dir) = (t.listingAt p).find? (isTooLong dir) := by
      rw [← List.head?_filter, ← List.head?_filter, filter_listingAt_set hq b' ht fun _ _ _ => rfl]
    have hsql : ((t.set q (.file b')).listingAt p).filter isMigration = (t.listingAt p).filter isMigration := by
      refine filter_listingAt_set hq b' ht fun names hne hplace => ?_
      rw [← hplace, List.getLast?_append_of_ne_nil _ hne] at hname
      rw [isMigration, hname, Bool.and_false]
    dsimp only
    rw [hlong]
    cases (t.listingAt p).find? (isTooLong dir) with
    | some item => rfl
    | none =>
      dsimp only [Except.map]
      rw [Listing.migrations, hsql, Listing.migrations]

theorem read_set {dir : String} {paths : List String}
    (hpaths : (t.listing dir).map (Listing.migrations dir) = .ok paths) :
    ∀ path ∈ paths, (t.set q (.file b')).read path = t.read path := by
  intro path hpath
  obtain ⟨p, hp, rfl⟩ : ∃ p, t.folder? dir = some p ∧ paths = Listing.migrations dir (t.listingAt p) := by
    unfold listing at hpaths
    split at hpaths
    · cases hpaths
    · rename_i p hp
      split at hpaths
      · cases hpaths
      · exact ⟨p, hp, (Except.ok.inj hpaths).symm⟩
  obtain ⟨item, hitem, rfl⟩ := List.mem_map.mp (List.mem_mergeSort.mp hpath)
  obtain ⟨⟨bytes, hfile⟩, stem, hstem⟩ := ht.mem_migrations_iff.mp (List.mem_map_of_mem hitem)
  have hplace : p ++ item.1 ≠ q := by
    rintro rfl
    rw [List.getLast?_append_of_ne_nil _ hfile.ne_nil, hstem, Option.any_some, isSqlName_iff.mpr ⟨stem, rfl⟩] at hname
    cases hname
  have hagree := agreeBut_set hq b'
  have hfile' : (t.set q (.file b')).Reaches p item.1 (.file bytes) :=
    (Sound.set hq b' ht).reaches ((hagree.elsewhere _ hplace).trans hfile.entry?_eq) hfile.ne_nil
  have hp' : (t.set q (.file b')).folder? dir = some p := (hagree.folder?_eq dir).trans hp
  rw [read_below ht (folder?_eq_some_iff.mp hp) hfile,
    read_below (Sound.set hq b' ht) (folder?_eq_some_iff.mp hp') hfile']

end

end FileTree

/-! ## Scans -/

theorem readSources_congr {t t' : FileTree} {paths : List String} (h : ∀ path ∈ paths, t'.read path = t.read path) :
    ((readSources .ofTree paths).run t').1 = ((readSources .ofTree paths).run t).1 := by
  induction paths with
  | nil => rfl
  | cons path paths ih =>
    rw [List.forall_mem_cons] at h
    rw [readSources_cons, readSources_cons, readSource_run, readSource_run, h.1]
    dsimp only
    rw [ih h.2]

section
variable {t : FileTree} {q : Place} {b : ByteArray} (hq : t.entry? q = some (.file b)) (ht : t.Sound)
  (hname : q.getLast?.any isSqlName = false) (b' : ByteArray) (policy : Policy) (timestamp dir : String)
include hq ht hname

theorem readSources_set {paths : List String}
    (hpaths : (t.listing dir).map (Listing.migrations dir) = .ok paths) :
    ((readSources .ofTree paths).run (t.set q (.file b'))).1 = ((readSources .ofTree paths).run t).1 :=
  readSources_congr (FileTree.read_set hq b' ht hname hpaths)

/-- **Rewriting another file.** A scan does not see what a file that is no migration file holds. -/
theorem scanDirectory_set :
    ((scanDirectory .ofTree policy timestamp dir).run (t.set q (.file b'))).1 =
      ((scanDirectory .ofTree policy timestamp dir).run t).1 := by
  rw [scanDirectory_run, scanDirectory_run, FileTree.discover_set hq b' ht hname dir]
  cases hpaths : (t.listing dir).map (Listing.migrations dir) with
  | error e => rfl
  | ok paths =>
    cases paths with
    | nil => rfl
    | cons path paths =>
      dsimp only
      rw [readSources_set hq ht hname b' dir hpaths]

theorem scanEvents_set :
    scanEvents (t.set q (.file b')) policy timestamp dir = scanEvents t policy timestamp dir := by
  rw [scanEvents, scanEvents, FileTree.discover_set hq b' ht hname dir]
  cases hpaths : (t.listing dir).map (Listing.migrations dir) with
  | error e => rfl
  | ok paths =>
    cases paths with
    | nil => rfl
    | cons path paths =>
      dsimp only
      rw [readSources_set hq ht hname b' dir hpaths]

end

end MigrationLint
