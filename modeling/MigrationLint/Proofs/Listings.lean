import Mathlib.Data.List.Induction
import Mathlib.Data.List.Nodup
import MigrationLint.Proofs.Logs
import MigrationLint.Proofs.Names
import MigrationLint.Proofs.Paths
import MigrationLint.Proofs.Trees

/-!
# Listings and what is below a folder

In a tree as file systems have them (`FileTree.Sound`) the listing of a folder holds what is reached from it through
folders (`mem_listingAt_iff`). Joining the names to the path of the folder keeps them apart (`pathParts_joinPaths`),
so discovery finds each migration file once and in the order of the paths (`discover_reached`).
-/

namespace MigrationLint

open Text

/-! ## Joined paths -/

/-- A name under which a folder can hold an entry. -/
structure EntryName (name : String) : Prop extends FileTree.Plain name where
  no_slash : '/' ∉ name.toList

instance (name : String) : Decidable (EntryName name) :=
  decidable_of_iff ((name ≠ "" ∧ name ≠ "." ∧ name ≠ ".." ∧ name.utf8ByteSize ≤ FileTree.nameLimit) ∧ '/' ∉ name.toList)
    ⟨fun ⟨⟨h₁, h₂, h₃, h₄⟩, h⟩ => ⟨⟨h₁, h₂, h₃, h₄⟩, h⟩, fun h => ⟨⟨h.ne_empty, h.ne_dot, h.ne_up, h.fits⟩, h.no_slash⟩⟩

section
variable {dir name : String}

theorem pieces_joinPath (dir : String) (h : '/' ∉ name.toList) :
    ∃ front, front ≠ [] ∧ pieces (· == '/') (joinPath dir name).toList = front ++ [name.toList] ∧
      pieces (· == '/') dir.toList = front ++ if dir.toList.getLast? = some '/' then [[]] else [] := by
  have hname : pieces (· == '/') name.toList = [name.toList] := pieces_of_not_mem h
  unfold joinPath
  split
  · rename_i hlast
    obtain ⟨s, hs⟩ := List.getLast?_eq_some_iff.mp hlast
    refine ⟨pieces (· == '/') s, pieces_ne_nil _ _, ?_, ?_⟩
    · rw [String.toList_append, hs, List.append_assoc, List.singleton_append, pieces_append rfl, hname]
    · rw [hs, pieces_append rfl]
      rfl
  · refine ⟨pieces (· == '/') dir.toList, pieces_ne_nil _ _, ?_, (List.append_nil _).symm⟩
    have hjoin : (dir ++ "/" ++ name).toList = dir.toList ++ '/' :: name.toList := by simp
    rw [hjoin, pieces_append rfl, hname]

theorem head?_joinPath (hd : dir ≠ "") : (joinPath dir name).toList.head? = dir.toList.head? := by
  have hne : dir.toList ≠ [] := by simpa using hd
  obtain ⟨c, s, hs⟩ := List.exists_cons_of_ne_nil hne
  unfold joinPath
  split <;> simp [hs]

theorem joinPath_ne (hd : dir ≠ "") : joinPath dir name ≠ "" := by
  intro h
  have hhead : (joinPath dir name).toList.head? = dir.toList.head? := head?_joinPath hd
  rw [h] at hhead
  exact hd (by simpa using hhead.symm)

theorem isAbsolute_joinPath (hd : dir ≠ "") : isAbsolute (joinPath dir name) = isAbsolute dir := by
  rw [isAbsolute, isAbsolute, head?_joinPath hd]

theorem pathParts_joinPath (hd : dir ≠ "") (h : EntryName name) :
    pathParts (joinPath dir name) = pathParts dir ++ [.name name] := by
  obtain ⟨front, hne, hjoin, hdir⟩ := pieces_joinPath dir h.no_slash
  have hhead : (pieces (· == '/') dir.toList).head? = (pieces (· == '/') (joinPath dir name).toList).head? := by
    obtain ⟨w, ws, rfl⟩ := List.exists_cons_of_ne_nil hne
    rw [hjoin, hdir]
    rfl
  have hpart : part? name.toList = some (.name name) := by
    have hup : name.toList ≠ ['.', '.'] := fun e => h.ne_up (String.toList_inj.mp e)
    have hdot : name.toList ≠ ['.'] := fun e => h.ne_dot (String.toList_inj.mp e)
    simp [part?, h.ne_empty, hup, hdot]
  have hparts : ((if dir.toList.getLast? = some '/' then [[]] else []) : List (List Char)).filterMap part? = [] := by
    split <;> rfl
  unfold pathParts
  dsimp only
  rw [isAbsolute_joinPath hd, hhead, hjoin, hdir]
  simp only [List.filterMap_append, hparts, List.append_nil, List.filterMap_cons, hpart, List.filterMap_nil,
    List.append_assoc]

end

section
variable {dir : String} (hd : dir ≠ "")
include hd

theorem joinPaths_ne (names : List String) : joinPaths dir names ≠ "" := by
  induction names generalizing dir with
  | nil => exact hd
  | cons name names ih => exact ih (joinPath_ne hd)

theorem pathParts_joinPaths {names : List String} (h : ∀ name ∈ names, EntryName name) :
    pathParts (joinPaths dir names) = pathParts dir ++ names.map .name := by
  induction names generalizing dir with
  | nil => exact (List.append_nil _).symm
  | cons name names ih =>
    rw [List.forall_mem_cons] at h
    have hjoin : joinPaths dir (name :: names) = joinPaths (joinPath dir name) names := rfl
    rw [hjoin, ih (joinPath_ne hd) h.2, pathParts_joinPath hd h.1, List.append_assoc]
    rfl

theorem names_eq_of_parts {names names' : List String} (h : ∀ name ∈ names, EntryName name)
    (h' : ∀ name ∈ names', EntryName name)
    (he : pathParts (joinPaths dir names) = pathParts (joinPaths dir names')) : names = names' := by
  rw [pathParts_joinPaths hd h, pathParts_joinPaths hd h'] at he
  exact List.map_injective_iff.mpr (fun _ _ => PathPart.name.inj) (List.append_cancel_left he)

end

namespace FileTree

/-! ## Sound trees -/

/-- A tree as file systems have them: no place is given twice, every name is one that a folder can hold, and what is
not at the root is in a folder. -/
structure Sound (t : FileTree) : Prop where
  nodup : (t.entries.map Prod.fst).Nodup
  below_root : ∀ e ∈ t.entries, e.1 ≠ []
  entryName : ∀ e ∈ t.entries, ∀ name ∈ e.1, EntryName name
  in_folder : ∀ e ∈ t.entries, e.1.dropLast = [] ∨ t.entry? e.1.dropLast = some .folder

instance (o : Option Entry) : Decidable (o = some .folder) :=
  decidable_of_iff (o.map Entry.kind = some .folder) (by rcases o with _ | (_ | _ | _) <;> simp [Entry.kind])

instance (t : FileTree) : Decidable t.Sound :=
  decidable_of_iff
    ((t.entries.map Prod.fst).Nodup ∧ ∀ e ∈ t.entries, e.1 ≠ [] ∧ (∀ name ∈ e.1, EntryName name) ∧
      (e.1.dropLast = [] ∨ t.entry? e.1.dropLast = some .folder))
    ⟨fun ⟨hn, h⟩ => ⟨hn, fun e he => (h e he).1, fun e he => (h e he).2.1, fun e he => (h e he).2.2⟩,
      fun h => ⟨h.nodup, fun e he => ⟨h.below_root e he, h.entryName e he, h.in_folder e he⟩⟩⟩

/-- An entry that the names lead to from a place, each name but the last being that of a folder. -/
inductive Reaches (t : FileTree) (p : Place) : List String → Entry → Prop
  | child {name : String} {e : Entry} : t.entry? (p ++ [name]) = some e → Reaches t p [name] e
  | deeper {names : List String} {name : String} {e : Entry} :
      Reaches t p names .folder → t.entry? (p ++ names ++ [name]) = some e → Reaches t p (names ++ [name]) e

section
variable {t : FileTree} {p q : Place} {names : List String} {e : Entry}

theorem mem_of_lookup (h : t.entry? q = some e) : (q, e) ∈ t.entries := by
  obtain ⟨l, r, hl, -⟩ := List.lookup_eq_some_iff.mp h
  rw [hl]
  exact List.mem_append_right _ List.mem_cons_self

theorem Reaches.entry?_eq (h : t.Reaches p names e) : t.entry? (p ++ names) = some e := by
  cases h with
  | child h => exact h
  | deeper _ h => rwa [List.append_assoc] at h

theorem Reaches.ne_nil (h : t.Reaches p names e) : names ≠ [] := by
  cases h <;> simp

section
variable (ht : t.Sound)
include ht

theorem Sound.entry?_of_mem (h : (q, e) ∈ t.entries) : t.entry? q = some e := by
  obtain ⟨l, r, hl⟩ := List.append_of_mem h
  have hnodup := ht.nodup
  rw [hl, List.map_append, List.map_cons, List.nodup_append] at hnodup
  refine List.lookup_eq_some_iff.mpr ⟨l, r, hl, fun a ha => ?_⟩
  rw [bne_iff_ne]
  rintro rfl
  exact hnodup.2.2 _ (List.mem_map_of_mem ha) _ List.mem_cons_self rfl

theorem Sound.reaches (h : t.entry? (p ++ names) = some e) (hne : names ≠ []) : t.Reaches p names e := by
  induction names using List.reverseRecOn generalizing e with
  | nil => exact absurd rfl hne
  | append_singleton names name ih =>
    rw [← List.append_assoc] at h
    by_cases hnames : names = []
    · subst hnames
      exact .child (by simpa using h)
    · refine .deeper (ih ?_ hnames) h
      have hfolder := ht.in_folder _ (mem_of_lookup h)
      rw [List.dropLast_concat] at hfolder
      exact hfolder.resolve_left (by simp [hnames])

theorem Sound.entryName_of_reaches (h : t.Reaches p names e) : ∀ name ∈ names, EntryName name := fun name hname =>
  ht.entryName _ (mem_of_lookup h.entry?_eq) name (List.mem_append_right _ hname)

/-! ## Listings -/

omit ht in
theorem below?_eq_some_iff : below? p q = some names ↔ q = p ++ names ∧ names ≠ [] := by
  unfold below?
  simp only [Bool.and_eq_true, List.isPrefixOf_iff_prefix, decide_eq_true_eq]
  constructor
  · intro h
    split at h
    · rename_i hp
      obtain ⟨⟨s, rfl⟩, hlen⟩ := hp
      rw [List.drop_left, Option.some.injEq] at h
      subst h
      rw [List.length_append] at hlen
      exact ⟨rfl, List.ne_nil_of_length_pos (by omega)⟩
    · cases h
  · rintro ⟨rfl, hne⟩
    have hlen := List.length_pos_iff.mpr hne
    rw [if_pos ⟨List.prefix_append p names, by rw [List.length_append]; omega⟩, List.drop_left]

/-- The listing of a folder holds what is reached from it. -/
theorem Sound.mem_listingAt_iff {kind : Kind} :
    (names, kind) ∈ t.listingAt p ↔ ∃ e, t.Reaches p names e ∧ e.kind = kind := by
  rw [listingAt, List.mem_filterMap]
  simp only [Option.map_eq_some_iff, below?_eq_some_iff, Prod.mk.injEq]
  constructor
  · rintro ⟨⟨q, e⟩, hq, _, ⟨rfl, hne⟩, rfl, rfl⟩
    exact ⟨e, ht.reaches (ht.entry?_of_mem hq) hne, rfl⟩
  · rintro ⟨e, he, rfl⟩
    exact ⟨_, mem_of_lookup he.entry?_eq, names, ⟨rfl, he.ne_nil⟩, rfl, rfl⟩

theorem Sound.nodup_listingAt (p : Place) : ((t.listingAt p).map Prod.fst).Nodup := by
  have hnames : (t.listingAt p).map Prod.fst = (t.entries.map Prod.fst).filterMap (below? p) := by
    rw [listingAt, List.map_filterMap, List.filterMap_map]
    refine List.filterMap_congr fun e _ => ?_
    rw [Option.map_map]
    exact Option.map_id'
  rw [hnames]
  refine ht.nodup.filterMap fun a b names ha hb => ?_
  rw [(below?_eq_some_iff.mp ha).1, (below?_eq_some_iff.mp hb).1]

end

/-! ## Directories -/

/-- The path is that of a folder, or of a link to one. -/
def IsDirectory (t : FileTree) (dir : String) : Prop := ∃ p, t.find dir = .ok (.folder p)

/-- The walk over the directory meets no error. -/
def Walks (t : FileTree) (dir : String) : Prop := ∀ path e, t.listing dir ≠ .error (.walk path e)

theorem folder?_eq_some_iff {dir : String} : t.folder? dir = some p ↔ t.find dir = .ok (.folder p) := by
  unfold folder?
  split
  · rename_i h
    simp [h]
  · rename_i h
    simp only [reduceCtorEq, false_iff]
    exact h p

theorem ne_empty_of_find {dir : String} {found : Found} (h : t.find dir = .ok found) : dir ≠ "" := by
  rintro rfl
  cases h

theorem listing_of_not_directory {dir : String} (h : ¬ t.IsDirectory dir) :
    t.listing dir = .error (.directoryNotFound dir) := by
  have hnone : t.folder? dir = none :=
    Option.eq_none_iff_forall_ne_some.mpr fun p hp => h ⟨p, folder?_eq_some_iff.mp hp⟩
  rw [listing, hnone]

theorem Walks.listing_eq {dir : String} (hw : t.Walks dir) (h : t.find dir = .ok (.folder p)) :
    t.listing dir = .ok (t.listingAt p) := by
  rw [listing, folder?_eq_some_iff.mpr h]
  dsimp only
  cases hlong : (t.listingAt p).find? (isTooLong dir) with
  | none => rfl
  | some item =>
    refine absurd ?_ (hw (joinPaths dir item.1) .nameTooLong)
    rw [listing, folder?_eq_some_iff.mpr h]
    dsimp only
    rw [hlong]

/-! ## Migration files -/

/-- The names lead from the folder to a regular file whose name ends in `.sql`. -/
def ReachesSql (t : FileTree) (p : Place) (names : List String) : Prop :=
  (∃ bytes, t.Reaches p names (.file bytes)) ∧ ∃ stem, names.getLast? = some (stem ++ ".sql")

theorem isSqlName_iff {name : String} : isSqlName name = true ↔ ∃ stem, name = stem ++ ".sql" := by
  rw [isSqlName, List.isSuffixOf_iff_suffix]
  constructor
  · rintro ⟨s, hs⟩
    exact ⟨.ofList s, String.toList_inj.mp (by simpa using hs.symm)⟩
  · rintro ⟨stem, rfl⟩
    exact ⟨stem.toList, by simp⟩

theorem Sound.mem_migrations_iff (ht : t.Sound) :
    names ∈ ((t.listingAt p).filter isMigration).map Prod.fst ↔ t.ReachesSql p names := by
  have hkind : ∀ e : Entry, e.kind = .file ↔ ∃ bytes, e = .file bytes := fun e => by cases e <;> simp [Entry.kind]
  have hname : names.getLast?.any isSqlName = true ↔ ∃ stem, names.getLast? = some (stem ++ ".sql") := by
    cases names.getLast? <;> simp [isSqlName_iff]
  rw [List.mem_map, ReachesSql, ← hname]
  constructor
  · rintro ⟨⟨_, kind⟩, hmem, rfl⟩
    rw [List.mem_filter, ht.mem_listingAt_iff, isMigration, Bool.and_eq_true, beq_iff_eq] at hmem
    obtain ⟨⟨e, he, rfl⟩, hfile, hsql⟩ := hmem
    obtain ⟨bytes, rfl⟩ := (hkind e).mp hfile
    exact ⟨⟨bytes, he⟩, hsql⟩
  · rintro ⟨⟨bytes, he⟩, hsql⟩
    refine ⟨(names, .file), List.mem_filter.mpr ⟨ht.mem_listingAt_iff.mpr ⟨_, he, rfl⟩, ?_⟩, rfl⟩
    rw [isMigration, hsql]
    rfl

/-- The migration files of a listing are those that are reached, in the order of their paths. -/
theorem Sound.migrations (ht : t.Sound) {dir : String} (hd : dir ≠ "") (p : Place) :
    ∃ files : List (List String), Listing.migrations dir (t.listingAt p) = files.map (joinPaths dir) ∧
      (∀ names, names ∈ files ↔ t.ReachesSql p names) ∧
      (files.map (joinPaths dir)).Pairwise fun a b => pathParts a < pathParts b := by
  let found := ((t.listingAt p).filter isMigration).map Prod.fst
  let files := found.mergeSort fun a b => pathLe (joinPaths dir a) (joinPaths dir b)
  have hmem : ∀ names, names ∈ files ↔ t.ReachesSql p names := fun names =>
    List.mem_mergeSort.trans ht.mem_migrations_iff
  have heq : Listing.migrations dir (t.listingAt p) = files.map (joinPaths dir) := by
    have hsort : files.map (joinPaths dir) = (found.map (joinPaths dir)).mergeSort pathLe :=
      List.map_mergeSort fun _ _ _ _ => rfl
    rw [hsort, List.map_map]
    rfl
  refine ⟨files, heq, hmem, ?_⟩
  have hle : (files.map (joinPaths dir)).Pairwise fun a b => pathParts a ≤ pathParts b := by
    rw [← heq]
    have hsorted := stablySorted_mergeSort (fun a b => pathLe_iff (a := a) (b := b)) (found.map (joinPaths dir))
    rw [List.map_map] at hsorted
    exact hsorted.ordered
  have hne : (files.map (joinPaths dir)).Pairwise fun a b => pathParts a ≠ pathParts b := by
    have hnodup : files.Nodup :=
      ((List.mergeSort_perm found _).nodup_iff).mpr ((ht.nodup_listingAt p).sublist (List.filter_sublist.map _))
    have hentry : ∀ names ∈ files, ∀ name ∈ names, EntryName name := fun names hn => by
      obtain ⟨⟨bytes, he⟩, -⟩ := (hmem names).mp hn
      exact ht.entryName_of_reaches he
    rw [List.pairwise_map]
    refine hnodup.imp_of_mem fun ha hb hab he => hab ?_
    exact names_eq_of_parts hd (hentry _ ha) (hentry _ hb) he
  exact (hle.and hne).imp fun h => lt_of_le_of_ne h.1 h.2

end

end FileTree

/-! ## Discovery -/

section
variable {t : FileTree} {dir : String}

theorem discover_of_not_directory (h : ¬ t.IsDirectory dir) :
    (discover .ofTree dir).run t = (.error (.directoryNotFound dir), t) := by
  rw [discover_run, FileTree.listing_of_not_directory h]
  rfl

theorem discover_of_directory (ht : t.Sound) (hw : t.Walks dir) {p : Place} (h : t.find dir = .ok (.folder p)) :
    ∃ files : List (List String), (discover .ofTree dir).run t = (.ok (files.map (joinPaths dir)), t) ∧
      (∀ names, names ∈ files ↔ t.ReachesSql p names) ∧
      (files.map (joinPaths dir)).Pairwise fun a b => pathParts a < pathParts b := by
  obtain ⟨files, heq, hfiles⟩ := ht.migrations (FileTree.ne_empty_of_find h) p
  refine ⟨files, ?_, hfiles⟩
  rw [discover_run, hw.listing_eq h, Except.map, heq]

/-- **Discovery.** A directory that can be walked gives its migration files: the regular files with names in `.sql`
that are reached from it through folders and over no link, each once and in the order of the paths. What is no
directory is reported as not found, and nothing else is. -/
theorem discover_reached (ht : t.Sound) (hw : t.Walks dir) :
    ∃ result, (discover .ofTree dir).run t = (result, t) ∧
      (result = .error (.directoryNotFound dir) ↔ ¬ t.IsDirectory dir) ∧
      ∀ p, t.find dir = .ok (.folder p) → ∃ files : List (List String), result = .ok (files.map (joinPaths dir)) ∧
        (∀ names, names ∈ files ↔ t.ReachesSql p names) ∧
        (files.map (joinPaths dir)).Pairwise fun a b => pathParts a < pathParts b := by
  by_cases h : t.IsDirectory dir
  · obtain ⟨p, hp⟩ := h
    obtain ⟨files, hrun, hfiles⟩ := discover_of_directory ht hw hp
    refine ⟨_, hrun, ?_, fun q hq => ?_⟩
    · exact iff_of_false (by simp) (not_not_intro ⟨p, hp⟩)
    · obtain rfl : p = q := by simpa using hp.symm.trans hq
      exact ⟨files, rfl, hfiles⟩
  · exact ⟨_, discover_of_not_directory h, iff_of_true rfl h, fun p hp => absurd ⟨p, hp⟩ h⟩

end

/-- The directory is a link, and links below it lead back to it, to a file and nowhere. -/
theorem discover_reached_links :
    let t : FileTree :=
      ⟨[(["work"], .folder), (["work", "up"], .link "m"), (["work", "m"], .folder), (["work", "m", "b"], .folder),
        (["work", "m", "b", ".sql"], .file "drop table users".toUTF8), (["work", "m", "b", "c.sql"], .link "../.."),
        (["work", "m", "b-1.sql"], .file "select 1".toUTF8), (["work", "m", "d.sql"], .folder),
        (["work", "m", "e.sql"], .link "b-1.sql"), (["work", "m", "f.sql.bak"], .file "".toUTF8),
        (["work", "m", "g.sql"], .link "g.sql")], ["work"]⟩
    t.Sound ∧ t.Walks "up" ∧ t.IsDirectory "up" ∧
      (discover .ofTree "up").run t = (.ok ["up/b/.sql", "up/b-1.sql"], t) ∧
      ∃ files : List (List String), files.map (joinPaths "up") = ["up/b/.sql", "up/b-1.sql"] ∧
        ∀ names, names ∈ files ↔ t.ReachesSql ["work", "m"] names := by
  intro t
  have ht : t.Sound := by decide +kernel
  have hdir : t.find "up" = .ok (.folder ["work", "m"]) := FileTree.folder?_eq_some_iff.mp (by decide +kernel)
  have hlisting : t.listing "up" = .ok (t.listingAt ["work", "m"]) := by decide +kernel
  have hw : t.Walks "up" := by simp [FileTree.Walks, hlisting]
  have hfound : Listing.migrations "up" (t.listingAt ["work", "m"]) = ["up/b/.sql", "up/b-1.sql"] := by
    have hpaths : ((t.listingAt ["work", "m"]).filter isMigration).map (fun item => joinPaths "up" item.1) =
        ["up/b/.sql", "up/b-1.sql"] := by decide +kernel
    rw [Listing.migrations, hpaths]
    exact List.mergeSort_of_pairwise (by decide)
  obtain ⟨result, hrun, -, hfiles⟩ := discover_reached ht hw
  obtain ⟨files, rfl, hmem, -⟩ := hfiles _ hdir
  rw [discover_run, hlisting, Except.map, hfound] at hrun ⊢
  exact ⟨ht, hw, ⟨_, hdir⟩, rfl, files, (Except.ok.inj (congrArg Prod.fst hrun)).symm, hmem⟩

end MigrationLint
