import MigrationLint.Proofs.Logs
import MigrationLint.Proofs.Lookups
import MigrationLint.Proofs.Sources

/-!
# Scans of a directory

A scan reads the files that discovery finds one after the other (`readSources_readable`), and the first that cannot be
read ends it (`readSources_unreadable`). So it reports all of them or none (`scanDirectory_whole`).
-/

namespace MigrationLint

namespace FileTree

/-! ## Readable files -/

/-- There is a file with the text below the directory, at the path joined from the names that lead to it. -/
def HoldsText (t : FileTree) (dir path text : String) : Prop :=
  ∃ p names, t.find dir = .ok (.folder p) ∧ t.Reaches p names (.file text.toUTF8) ∧ path = joinPaths dir names

/-- The path can be opened, and the file there holds a text. -/
def Readable (t : FileTree) (dir path : String) : Prop :=
  path.utf8ByteSize < pathLimit ∧ ∃ text, t.HoldsText dir path text

end FileTree

/-- Why a file that is not readable is not. -/
def readError (path : String) : FileError :=
  if FileTree.pathLimit ≤ path.utf8ByteSize then .nameTooLong else .notText

/-! ## Reading sources -/

section
variable {t : FileTree} {dir path : String} {paths : List String}

theorem readSource_run (t : FileTree) (path : String) :
    (readSource .ofTree path).run t =
      (match (t.read path).bind decodeText with
        | .ok text => .ok ⟨path, text⟩
        | .error e => .error (.read path e), t) := by
  rw [readSource, (Files.readsOnly_readText path).run_bind]
  have hread : ((Files.ofTree.readText path).run t).1 = (t.read path).bind decodeText := rfl
  rw [hread]
  cases (t.read path).bind decodeText <;> rfl

theorem readable_iff (ht : t.Sound) {p : Place} (hp : t.find dir = .ok (.folder p)) {names : List String}
    {bytes : ByteArray} (hfile : t.Reaches p names (.file bytes)) :
    t.Readable dir (joinPaths dir names) ↔
      (joinPaths dir names).utf8ByteSize < FileTree.pathLimit ∧ ∃ text : String, text.toUTF8 = bytes := by
  refine and_congr_right fun _ => exists_congr fun text => ⟨?_, ?_⟩
  · rintro ⟨q, names', hq, hfile', hpath⟩
    obtain rfl : p = q := by simpa using hp.symm.trans hq
    obtain rfl : names = names' := names_eq_of_parts (FileTree.ne_empty_of_find hp) (ht.entryName_of_reaches hfile)
      (ht.entryName_of_reaches hfile') (congrArg pathParts hpath)
    simpa using hfile'.entry?_eq.symm.trans hfile.entry?_eq
  · rintro rfl
    exact ⟨p, names, hp, hfile, rfl⟩

theorem readSource_readable (ht : t.Sound) (h : t.Readable dir path) :
    ∃ text, t.HoldsText dir path text ∧ (readSource .ofTree path).run t = (.ok ⟨path, text⟩, t) := by
  obtain ⟨hsize, text, htext⟩ := h
  refine ⟨text, htext, ?_⟩
  obtain ⟨p, names, hp, hfile, rfl⟩ := htext
  rw [readSource_run, FileTree.read_below ht hp hfile, if_neg (Nat.not_le.mpr hsize), Except.bind, decodeText_toUTF8]

theorem readSource_unreadable (ht : t.Sound) {p : Place} (hp : t.find dir = .ok (.folder p)) {names : List String}
    {bytes : ByteArray} (hfile : t.Reaches p names (.file bytes)) (h : ¬ t.Readable dir (joinPaths dir names)) :
    (readSource .ofTree (joinPaths dir names)).run t =
      (.error (.read (joinPaths dir names) (readError (joinPaths dir names))), t) := by
  rw [readSource_run, FileTree.read_below ht hp hfile, readError]
  by_cases hlong : FileTree.pathLimit ≤ (joinPaths dir names).utf8ByteSize
  · rw [if_pos hlong, if_pos hlong]
    rfl
  · have hbytes : ∀ s : String, s.toUTF8 ≠ bytes := fun s hs =>
      h ((readable_iff ht hp hfile).mpr ⟨Nat.not_le.mp hlong, s, hs⟩)
    rw [if_neg hlong, if_neg hlong, Except.bind, decodeText_of_ne hbytes]

theorem readSources_cons (t : FileTree) (path : String) (paths : List String) :
    (readSources .ofTree (path :: paths)).run t =
      (match ((readSource .ofTree path).run t).1 with
        | .error e => .error e
        | .ok s => ((readSources .ofTree paths).run t).1.map (s :: ·), t) := by
  rw [readSources, (readsOnly_readSource path).run_bind]
  cases ((readSource .ofTree path).run t).1 with
  | error e => rfl
  | ok s =>
    dsimp only
    rw [(readsOnly_readSources paths).run_bind]
    rfl

theorem readSources_readable (ht : t.Sound) (h : ∀ path ∈ paths, t.Readable dir path) :
    ∃ sources : List Source, sources.map Source.path = paths ∧ (∀ s ∈ sources, t.HoldsText dir s.path s.text) ∧
      (readSources .ofTree paths).run t = (.ok sources, t) := by
  induction paths with
  | nil => exact ⟨[], rfl, by simp, rfl⟩
  | cons path paths ih =>
    rw [List.forall_mem_cons] at h
    obtain ⟨text, htext, hread⟩ := readSource_readable ht h.1
    obtain ⟨sources, rfl, htexts, hreads⟩ := ih h.2
    refine ⟨⟨path, text⟩ :: sources, rfl, List.forall_mem_cons.mpr ⟨htext, htexts⟩, ?_⟩
    rw [readSources_cons, hread, hreads]
    rfl

/-- The first file that is not readable ends the reading. -/
theorem readSources_unreadable (ht : t.Sound) {p : Place} (hp : t.find dir = .ok (.folder p)) {before : List String}
    (hbefore : ∀ path ∈ before, t.Readable dir path) {names : List String} {bytes : ByteArray}
    (hfile : t.Reaches p names (.file bytes)) (h : ¬ t.Readable dir (joinPaths dir names)) (after : List String) :
    (readSources .ofTree (before ++ joinPaths dir names :: after)).run t =
      (.error (.read (joinPaths dir names) (readError (joinPaths dir names))), t) := by
  induction before with
  | nil => rw [List.nil_append, readSources_cons, readSource_unreadable ht hp hfile h]
  | cons path before ih =>
    rw [List.forall_mem_cons] at hbefore
    obtain ⟨text, -, hread⟩ := readSource_readable ht hbefore.1
    rw [List.cons_append, readSources_cons, hread, ih hbefore.2]
    rfl

end

/-! ## Scans -/

theorem exists_first_not {α : Type} (P : α → Prop) (l : List α) :
    (∀ a ∈ l, P a) ∨ ∃ before a after, l = before ++ a :: after ∧ (∀ b ∈ before, P b) ∧ ¬ P a := by
  induction l with
  | nil => exact .inl (by simp)
  | cons a l ih =>
    by_cases ha : P a
    · rcases ih with h | ⟨before, b, after, rfl, hbefore, hb⟩
      · exact .inl (List.forall_mem_cons.mpr ⟨ha, h⟩)
      · exact .inr ⟨a :: before, b, after, rfl, List.forall_mem_cons.mpr ⟨ha, hbefore⟩, hb⟩
    · exact .inr ⟨[], a, l, rfl, by simp, ha⟩

/-- Sources that are given in the order of their paths are not sorted again. -/
theorem scanSources_sorted (policy : Policy) (timestamp : String) {sources : List Source}
    (h : (sources.map Source.path).Pairwise fun a b => pathParts a < pathParts b) :
    scanSources policy timestamp sources =
      { version := .current
        timestamp
        filesScanned := sources.length
        statementsChecked := (sources.map fun s => (s.scan policy).1).sum
        violations := sources.flatMap fun s => (s.scan policy).2 } := by
  refine scanSources_eq policy timestamp ⟨.refl _, ?_, fun _ => rfl⟩
  exact (List.pairwise_map.mp h).imp le_of_lt

section
variable {t : FileTree} {dir : String}

/-- Discovery finds the files at the paths. -/
def Discovers (t : FileTree) (dir : String) (paths : List String) : Prop :=
  (discover .ofTree dir).run t = (.ok paths, t)

theorem scanDirectory_of_not_directory (policy : Policy) (timestamp : String) (h : ¬ t.IsDirectory dir) :
    (scanDirectory .ofTree policy timestamp dir).run t = (.error (.directoryNotFound dir), t) := by
  have hlisting : (t.listing dir).map (Listing.migrations dir) = .error (.directoryNotFound dir) :=
    congrArg Prod.fst ((discover_run t dir).symm.trans (discover_of_not_directory h))
  rw [scanDirectory_run, hlisting]

theorem scanDirectory_of_discovers (policy : Policy) (timestamp : String) {paths : List String}
    (h : Discovers t dir paths) :
    (scanDirectory .ofTree policy timestamp dir).run t =
      (if paths = [] then .error (.noSqlFiles dir)
        else ((readSources .ofTree paths).run t).1.map (scanSources policy timestamp), t) := by
  have hlisting : (t.listing dir).map (Listing.migrations dir) = .ok paths :=
    congrArg Prod.fst ((discover_run t dir).symm.trans h)
  rw [scanDirectory_run, hlisting]
  cases paths <;> rfl

/-- The file is found, it is not readable, and every file before it is. -/
def FirstUnreadable (t : FileTree) (dir path : String) : Prop :=
  ∃ before after, Discovers t dir (before ++ path :: after) ∧ (∀ b ∈ before, t.Readable dir b) ∧ ¬ t.Readable dir path

/-- What a scan comes to, which is all or nothing. -/
structure ScansWhole (policy : Policy) (timestamp : String) (t : FileTree) (dir : String)
    (result : Except ScanError Report) : Prop where
  not_found : result = .error (.directoryNotFound dir) ↔ ¬ t.IsDirectory dir
  no_files : result = .error (.noSqlFiles dir) ↔ t.IsDirectory dir ∧ Discovers t dir []
  unreadable : ∀ path e, result = .error (.read path e) ↔ FirstUnreadable t dir path ∧ e = readError path
  whole : ∀ paths, paths ≠ [] → Discovers t dir paths → (∀ path ∈ paths, t.Readable dir path) →
    ∃ sources : List Source, sources.map Source.path = paths ∧ (∀ s ∈ sources, t.HoldsText dir s.path s.text) ∧
      result = .ok
        { version := .current
          timestamp
          filesScanned := paths.length
          statementsChecked := (sources.map fun s => (s.scan policy).1).sum
          violations := sources.flatMap fun s => (s.scan policy).2 }

section
variable (ht : t.Sound) (hw : t.Walks dir)
include ht hw

theorem exists_discovers (h : t.IsDirectory dir) : ∃ paths, Discovers t dir paths := by
  obtain ⟨p, hp⟩ := h
  obtain ⟨files, hrun, -⟩ := discover_of_directory ht hw hp
  exact ⟨_, hrun⟩

theorem Discovers.spec {paths : List String} (h : Discovers t dir paths) :
    ∃ p, t.find dir = .ok (.folder p) ∧
      (∀ path ∈ paths, ∃ names bytes, t.Reaches p names (.file bytes) ∧ path = joinPaths dir names) ∧
      paths.Pairwise fun a b => pathParts a < pathParts b := by
  by_cases hdir : t.IsDirectory dir
  · obtain ⟨p, hp⟩ := hdir
    obtain ⟨files, hrun, hmem, hsorted⟩ := discover_of_directory ht hw hp
    obtain rfl : files.map (joinPaths dir) = paths := by simpa using congrArg Prod.fst (hrun.symm.trans h)
    refine ⟨p, hp, fun path hpath => ?_, hsorted⟩
    obtain ⟨names, hnames, rfl⟩ := List.mem_map.mp hpath
    obtain ⟨⟨bytes, hfile⟩, -⟩ := (hmem names).mp hnames
    exact ⟨names, bytes, hfile, rfl⟩
  · cases (discover_of_not_directory hdir).symm.trans h

theorem scanDirectory_unreadable (policy : Policy) (timestamp : String) {path : String}
    (h : FirstUnreadable t dir path) :
    (scanDirectory .ofTree policy timestamp dir).run t = (.error (.read path (readError path)), t) := by
  obtain ⟨before, after, hfound, hbefore, hpath⟩ := h
  obtain ⟨p, hp, hfiles, -⟩ := hfound.spec ht hw
  obtain ⟨names, bytes, hfile, rfl⟩ := hfiles path (by simp)
  rw [scanDirectory_of_discovers policy timestamp hfound, if_neg (by simp),
    readSources_unreadable ht hp hbefore hfile hpath]
  rfl

theorem scanDirectory_readable (policy : Policy) (timestamp : String) {paths : List String} (hne : paths ≠ [])
    (hfound : Discovers t dir paths) (h : ∀ path ∈ paths, t.Readable dir path) :
    ∃ sources : List Source, sources.map Source.path = paths ∧ (∀ s ∈ sources, t.HoldsText dir s.path s.text) ∧
      (scanDirectory .ofTree policy timestamp dir).run t = (.ok
        { version := .current
          timestamp
          filesScanned := paths.length
          statementsChecked := (sources.map fun s => (s.scan policy).1).sum
          violations := sources.flatMap fun s => (s.scan policy).2 }, t) := by
  obtain ⟨sources, rfl, htexts, hread⟩ := readSources_readable ht h
  refine ⟨sources, rfl, htexts, ?_⟩
  obtain ⟨-, -, -, hsorted⟩ := hfound.spec ht hw
  rw [scanDirectory_of_discovers policy timestamp hfound, if_neg hne, hread, Except.map,
    scanSources_sorted policy timestamp hsorted, List.length_map]

theorem scan_cases :
    ¬ t.IsDirectory dir ∨ t.IsDirectory dir ∧ Discovers t dir [] ∨ (∃ path, FirstUnreadable t dir path) ∨
      ∃ paths, paths ≠ [] ∧ Discovers t dir paths ∧ ∀ path ∈ paths, t.Readable dir path := by
  by_cases hdir : t.IsDirectory dir
  · obtain ⟨paths, hfound⟩ := exists_discovers ht hw hdir
    by_cases hne : paths = []
    · exact .inr (.inl ⟨hdir, hne ▸ hfound⟩)
    · rcases exists_first_not (t.Readable dir) paths with h | ⟨before, path, after, rfl, hbefore, hpath⟩
      · exact .inr (.inr (.inr ⟨paths, hne, hfound, h⟩))
      · exact .inr (.inr (.inl ⟨path, before, after, hfound, hbefore, hpath⟩))
  · exact .inl hdir

/-- **Scans of a directory.** A scan of a directory that can be walked comes to one of four results: no directory, no
migration file, the first file in the order of the paths that cannot be read as a text, or a report of all of them,
which lists the violations file by file as they are found. -/
theorem scanDirectory_whole (policy : Policy) (timestamp : String) :
    ∃ result, (scanDirectory .ofTree policy timestamp dir).run t = (result, t) ∧
      (t.IsDirectory dir → ∃ paths, Discovers t dir paths) ∧ ScansWhole policy timestamp t dir result := by
  obtain ⟨result, hrun⟩ : ∃ result, (scanDirectory .ofTree policy timestamp dir).run t = (result, t) :=
    ⟨_, (readsOnly_scanDirectory policy timestamp dir).run_eq t⟩
  have is {r : Except ScanError Report} (h : (scanDirectory .ofTree policy timestamp dir).run t = (r, t)) :
      result = r := congrArg Prod.fst (hrun.symm.trans h)
  have notFound (h : ¬ t.IsDirectory dir) := is (scanDirectory_of_not_directory policy timestamp h)
  have noFiles (h : Discovers t dir []) := is (scanDirectory_of_discovers policy timestamp h)
  have unreadable {path : String} (h : FirstUnreadable t dir path) :=
    is (scanDirectory_unreadable ht hw policy timestamp h)
  have whole {paths : List String} (hne : paths ≠ []) (hfound : Discovers t dir paths)
      (h : ∀ path ∈ paths, t.Readable dir path) := scanDirectory_readable ht hw policy timestamp hne hfound h
  have report {paths : List String} (h : paths ≠ [] ∧ Discovers t dir paths ∧ ∀ path ∈ paths, t.Readable dir path) :
      ∃ r, result = .ok r := by
    obtain ⟨_, -, -, hr⟩ := whole h.1 h.2.1 h.2.2
    exact ⟨_, is hr⟩
  -- the four results differ, so each of them arises only from its own case
  refine ⟨result, hrun, exists_discovers ht hw, ⟨fun h => ?_, notFound⟩, ⟨fun h => ?_, fun h => noFiles h.2⟩,
    fun path e => ⟨fun h => ?_, ?_⟩, fun paths hne hfound h => ?_⟩
  · rcases scan_cases ht hw with h' | h' | ⟨_, h'⟩ | ⟨_, h'⟩
    · exact h'
    · cases h.symm.trans (noFiles h'.2)
    · cases h.symm.trans (unreadable h')
    · cases h.symm.trans (report h').choose_spec
  · rcases scan_cases ht hw with h' | h' | ⟨_, h'⟩ | ⟨_, h'⟩
    · cases h.symm.trans (notFound h')
    · exact h'
    · cases h.symm.trans (unreadable h')
    · cases h.symm.trans (report h').choose_spec
  · rcases scan_cases ht hw with h' | h' | ⟨_, h'⟩ | ⟨_, h'⟩
    · cases h.symm.trans (notFound h')
    · cases h.symm.trans (noFiles h'.2)
    · cases h.symm.trans (unreadable h')
      exact ⟨h', rfl⟩
    · cases h.symm.trans (report h').choose_spec
  · rintro ⟨h, rfl⟩
    exact unreadable h
  · obtain ⟨sources, hpaths, htexts, hr⟩ := whole hne hfound h
    exact ⟨sources, hpaths, htexts, is hr⟩

end

end

/-- The first of two files that hold no text is reported, whatever the other files hold. -/
theorem scanDirectory_whole_bytes :
    let policy : Policy := ⟨"cb_", ["public"], ["auth"], []⟩
    let t : FileTree :=
      ⟨[(["work"], .folder), (["work", "m"], .folder), (["work", "m", "a.sql"], .file "drop table users;".toUTF8),
        (["work", "m", "b.sql"], .file ⟨#[255]⟩), (["work", "m", "c.sql"], .file ⟨#[254]⟩)], ["work"]⟩
    t.Sound ∧ t.Walks "m" ∧ FirstUnreadable t "m" "m/b.sql" ∧
      (scanDirectory .ofTree policy "now" "m").run t = (.error (.read "m/b.sql" .notText), t) := by
  intro policy t
  have ht : t.Sound := by decide +kernel
  have hdir : t.find "m" = .ok (.folder ["work", "m"]) := FileTree.folder?_eq_some_iff.mp (by decide +kernel)
  have hlisting : t.listing "m" = .ok (t.listingAt ["work", "m"]) := by decide +kernel
  have hw : t.Walks "m" := by simp [FileTree.Walks, hlisting]
  have hfound : Discovers t "m" ["m/a.sql", "m/b.sql", "m/c.sql"] := by
    have hpaths : ((t.listingAt ["work", "m"]).filter isMigration).map (fun item => joinPaths "m" item.1) =
        ["m/a.sql", "m/b.sql", "m/c.sql"] := by decide +kernel
    rw [Discovers, discover_run, hlisting, Except.map, Listing.migrations, hpaths,
      List.mergeSort_of_pairwise (by decide)]
  have hfirst : FirstUnreadable t "m" "m/b.sql" := by
    have ha : t.Reaches ["work", "m"] ["a.sql"] (.file "drop table users;".toUTF8) := .child rfl
    have hb : t.Reaches ["work", "m"] ["b.sql"] (.file ⟨#[255]⟩) := .child rfl
    refine ⟨["m/a.sql"], ["m/c.sql"], hfound, ?_, fun h => ?_⟩
    · rw [List.forall_mem_singleton]
      exact (readable_iff ht hdir ha).mpr ⟨by decide, _, rfl⟩
    · obtain ⟨-, text, htext⟩ := (readable_iff ht hdir hb).mp h
      have hdecode := htext ▸ decodeText_toUTF8 text
      cases hdecode
  obtain ⟨result, hrun, -, hwhole⟩ := scanDirectory_whole ht hw policy "now"
  rw [hrun, (hwhole.unreadable "m/b.sql" .notText).mpr ⟨hfirst, by decide⟩]
  exact ⟨ht, hw, hfirst, rfl⟩

/-- Slashes at the end of the directory make the path of a file that holds a text too long to be opened. -/
theorem scanDirectory_slashed :
    let policy : Policy := ⟨"cb_", ["public"], ["auth"], []⟩
    let t : FileTree :=
      ⟨[(["work"], .folder), (["work", "m"], .folder), (["work", "m", "a.sql"], .file "select 1;".toUTF8)], ["work"]⟩
    let dir := slashed "m" 4091
    let path := joinPaths dir ["a.sql"]
    t.Sound ∧ t.Walks dir ∧ Discovers t dir [path] ∧ t.HoldsText dir path "select 1;" ∧
      (scanDirectory .ofTree policy "now" dir).run t = (.error (.read path .nameTooLong), t) := by
  intro policy t dir path
  have ht : t.Sound := by decide +kernel
  have hsize : dir.utf8ByteSize = 4092 := utf8ByteSize_slashed "m" 4091
  have hdir : t.find dir = .ok (.folder ["work", "m"]) :=
    FileTree.find_slashed (FileTree.folder?_eq_some_iff.mp (by decide +kernel)) (by rw [hsize]; decide)
  have hlong : FileTree.pathLimit ≤ path.utf8ByteSize := by
    have hpath : path = dir ++ "a.sql" := joinPaths_slashed "m" "a.sql" (by decide)
    rw [hpath, String.utf8ByteSize_append, hsize]
    decide
  clear_value dir
  have hlisting : t.listing dir = .ok [(["a.sql"], .file)] := by
    rw [FileTree.listing, FileTree.folder?_eq_some_iff.mpr hdir]
    rfl
  have hw : t.Walks dir := by simp [FileTree.Walks, hlisting]
  have hfound : Discovers t dir [path] := by
    rw [Discovers, discover_run, hlisting, Except.map]
    exact congrArg (fun paths => (Except.ok paths, t)) (List.mergeSort_singleton path)
  have hfile : t.Reaches ["work", "m"] ["a.sql"] (.file "select 1;".toUTF8) := .child rfl
  have hread : readError path = .nameTooLong := if_pos hlong
  have hunreadable : ¬ t.Readable dir path := fun h => absurd h.1 (Nat.not_lt.mpr hlong)
  have hscan := scanDirectory_unreadable ht hw policy "now" ⟨[], [], hfound, by simp, hunreadable⟩
  rw [hread] at hscan
  exact ⟨ht, hw, hfound, ⟨_, _, hdir, hfile, rfl⟩, hscan⟩

end MigrationLint
