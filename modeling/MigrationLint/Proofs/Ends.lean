import MigrationLint.Proofs.Hidden
import MigrationLint.Proofs.Lowering
import MigrationLint.Proofs.Names
import MigrationLint.Scan.Source

/-!
# Ends of statements

A semicolon in plain text ends a statement, and what stands before it and behind it is checked apart
(`check_append`). A semicolon in a comment, a literal or a body ends none. In a quoted name it does: the
statements of a text lie between the semicolons of its plain text exactly where no quoted name holds a
semicolon (`statements_cut`).
-/

namespace MigrationLint.Sql

open Text

/-! ## Semicolons in plain text -/

theorem read_semicolon (s : List Char) : Region.plain.read ';' s = ⟨[';'], .plain, 0⟩ := by
  simp [Region.read, tagAt]

theorem strip_semicolon (s : List Char) : strip (';' :: s) = ';' :: strip s := by
  rw [strip, stripFrom, read_semicolon]
  rfl

theorem breaks_semicolon : Breaks ';' := by decide

theorem normal_semicolon {a b : List Char} (h : PlainAt a (';' :: b)) :
    normal (a ++ ';' :: b) = normal a ++ ';' :: normal b := by
  rw [normal, h.strip_append, strip_semicolon, lower_break breaks_semicolon]
  rfl

theorem statements_append (s t : List Char) : statements (s ++ ';' :: t) = statements s ++ statements t := by
  rw [statements, pieces_append rfl, List.map_append, List.filter_append]
  rfl

theorem replaces_semicolon (s t : List Char) : Replaces (';' :: t) (';' :: s) :=
  .inr ⟨';', s, t, rfl, rfl, by decide⟩

/-! ## Statements on their own -/

theorem check_semicolon (policy : Policy) {a : List Char} (h : PlainAt a [';']) (q : List Char) :
    check policy (.ofList (a ++ ';' :: q)) = check policy (.ofList a) ++ check policy (.ofList q) := by
  simp only [check, String.toList_ofList]
  rw [normal_semicolon (h.replace (replaces_semicolon [] q)), statements_append, List.map_append]

/-- **Statements on their own.** A text behind a semicolon in plain text is checked as if it stood alone, and
so is the text that the semicolon ends. -/
theorem check_append (policy : Policy) {p q : String} {a : List Char} (hp : p.toList = a ++ [';'])
    (h : PlainAt a [';']) :
    check policy (p ++ q) = check policy p ++ check policy q ∧
      ∀ path, Source.scan policy ⟨path, p ++ q⟩ =
        ((Source.scan policy ⟨path, p⟩).1 + (Source.scan policy ⟨path, q⟩).1,
          (Source.scan policy ⟨path, p⟩).2 ++ (Source.scan policy ⟨path, q⟩).2) := by
  have hnil : check policy (.ofList []) = [] := rfl
  have hcheck : check policy (p ++ q) = check policy p ++ check policy q := by
    have hpq : p ++ q = .ofList (a ++ ';' :: q.toList) := by
      rw [← String.toList_inj, String.toList_append, hp, String.toList_ofList, List.append_assoc]
      rfl
    have hp' : p = .ofList (a ++ [';']) := by rw [← hp, String.ofList_toList]
    rw [hpq, hp', check_semicolon policy h, check_semicolon policy h, hnil, List.append_nil, String.ofList_toList]
  refine ⟨hcheck, fun path => ?_⟩
  simp only [Source.scan, hcheck, List.length_append, List.flatMap_append]

/-- Two statements behind each other, with semicolons in a literal, a comment and a body of the first text. -/
theorem check_append_regions :
    let policy : Policy := ⟨"cb_", ["public"], ["auth"], []⟩
    let p := "create table t (a text default ';'); -- x;\n select $$;$$;"
    let q := "drop view auth.v"
    PlainAt "create table t (a text default ';'); -- x;\n select $$;$$".toList [';'] ∧
      check policy (p ++ q) = check policy p ++ check policy q ∧
      (Source.scan policy ⟨"a.sql", p ++ q⟩).1 = 3 := by
  have h : PlainAt "create table t (a text default ';'); -- x;\n select $$;$$".toList [';'] := ⟨rfl, rfl⟩
  have happ := check_append ⟨"cb_", ["public"], ["auth"], []⟩ (q := "drop view auth.v")
    (p := "create table t (a text default ';'); -- x;\n select $$;$$;") (by decide) h
  refine ⟨h, happ.1, ?_⟩
  rw [happ.2]
  decide

/-! ## Semicolons in any region -/

/-- The scan goes on in the region `r`. -/
def Reading.In (x : Reading) (r : Region) : Prop := x.region = r ∧ x.skip = 0

/-- The scan of `a ++ s` reaches the start of `s` in the region `r`. -/
def ReadIn (r : Region) (a s : List Char) : Prop := (Region.plain.readAll 0 a s).In r

theorem readAll_cons_in {r t : Region} {c : Char} {a s : List Char} :
    (r.readAll 0 (c :: a) s).In t ↔
      ((r.read c (a ++ s)).region.readAll (r.read c (a ++ s)).skip a s).In t := Iff.rfl

theorem readAll_append_in {r t : Region} {k : Nat} {p q s : List Char} :
    (r.readAll k (p ++ q) s).In t ↔
      ((r.readAll k p (q ++ s)).region.readAll (r.readAll k p (q ++ s)).skip q s).In t := by
  induction p generalizing r k with
  | nil => rfl
  | cons c p ih =>
    cases k with
    | succ k => exact ih
    | zero =>
      rw [List.cons_append, readAll_cons_in, ih, List.append_assoc]
      rfl

/-- A scan that is in plain text at the end of a text has not looked beyond that end anywhere. -/
theorem readAll_within {s s' : List Char} (hs : Replaces s' s) {r : Region} {k : Nat} {p w : List Char}
    (h : (r.readAll k (p ++ w) s).Plain) : r.readAll k p (w ++ s') = r.readAll k p (w ++ s) := by
  induction p generalizing r k with
  | nil => rfl
  | cons c p ih =>
    cases k with
    | succ k => exact ih h
    | zero =>
      rw [List.cons_append, readAll_cons_plain] at h
      have hc := hs.read_eq h
      rw [List.append_assoc] at h
      rw [List.append_assoc, List.append_assoc] at hc
      simp only [Region.readAll]
      rw [hc, ih h]

theorem exists_semicolon_cons {c : Char} {s : List Char} {P : List Char → List Char → Prop} :
    (∃ a b, c :: s = a ++ ';' :: b ∧ P a b) ↔
      (c = ';' ∧ P [] s) ∨ ∃ a b, s = a ++ ';' :: b ∧ P (c :: a) b := by
  constructor
  · intro hx
    obtain ⟨a, b, he, h⟩ := hx
    cases a with
    | nil =>
      obtain ⟨rfl, rfl⟩ := List.cons.inj he
      exact .inl ⟨rfl, h⟩
    | cons d a =>
      obtain ⟨rfl, rfl⟩ := List.cons.inj he
      exact .inr ⟨a, b, rfl, h⟩
  · intro hx
    rcases hx with ⟨rfl, h⟩ | ⟨a, b, rfl, h⟩
    · exact ⟨[], s, rfl, h⟩
    · exact ⟨c :: a, b, rfl, h⟩

theorem exists_semicolon_append {s t : List Char} {P : List Char → List Char → Prop} :
    (∃ a b, s ++ ';' :: t = a ++ ';' :: b ∧ P a b) ↔
      (∃ a b, s = a ++ ';' :: b ∧ P a (b ++ ';' :: t)) ∨ P s t ∨
        ∃ a b, t = a ++ ';' :: b ∧ P (s ++ ';' :: a) b := by
  induction s generalizing P with
  | nil => simp [exists_semicolon_cons]
  | cons c s ih =>
    rw [List.cons_append, exists_semicolon_cons, exists_semicolon_cons, ih, or_assoc]
    rfl

theorem mem_read_out_iff {r : Region} {c : Char} {s : List Char} :
    ';' ∈ (r.read c s).out ↔ c = ';' ∧ (r = .plain ∨ r = .quoted) := by
  by_cases hc : c = ';'
  · subst hc
    cases r with
    | plain => simp [read_semicolon]
    | body tag => by_cases h : tag.isPrefixOf (';' :: s) = true <;> simp [Region.read, h]
    | _ => simp [Region.read]
  · refine iff_of_false ?_ (fun h => hc h.1)
    cases r with
    | plain =>
      by_cases hr : ∃ r : Region, r.Marked ∧ r.opener <+: c :: s
      · obtain ⟨r, hr, hp⟩ := hr
        rw [read_opener hr hp]
        cases r <;> simp [Region.openOut]
      · rw [read_plain fun r h hp => hr ⟨r, h, hp⟩]
        simpa using Ne.symm hc
    | body tag => by_cases h : tag.isPrefixOf (c :: s) = true <;> simp [Region.read, h]
    | _ =>
      simp only [Region.read]
      repeat' split
      all_goals simp [Ne.symm hc]

/-- Stripping leaves the semicolons of plain text and of quoted names. -/
theorem mem_stripFrom_iff {r : Region} {k : Nat} {s : List Char} :
    ';' ∈ stripFrom r k s ↔
      ∃ a b, s = a ++ ';' :: b ∧
        ((r.readAll k a (';' :: b)).In .plain ∨ (r.readAll k a (';' :: b)).In .quoted) := by
  induction s generalizing r k with
  | nil => simp [stripFrom]
  | cons c s ih =>
    rw [exists_semicolon_cons]
    cases k with
    | succ k =>
      rw [stripFrom, ih]
      simp [Region.readAll, Reading.In]
    | zero =>
      rw [stripFrom, List.mem_append, mem_read_out_iff, ih]
      refine or_congr ?_ ⟨?_, ?_⟩
      · simp [Region.readAll, Reading.In]
      · rintro ⟨a, b, rfl, h⟩
        exact ⟨a, b, rfl, h⟩
      · rintro ⟨a, b, rfl, h⟩
        exact ⟨a, b, rfl, h⟩

/-! ## Cuts -/

/-- The pieces of a text between the semicolons that are read in plain text. -/
def Region.cuts : Region → Nat → List Char → List (List Char)
  | _, _, [] => [[]]
  | r, k + 1, c :: s => (r.cuts k s).modifyHead (c :: ·)
  | r, 0, c :: s =>
    let x := r.read c s
    if r = .plain ∧ c = ';' then [] :: x.region.cuts x.skip s else (x.region.cuts x.skip s).modifyHead (c :: ·)

def cuts (s : List Char) : List (List Char) := Region.plain.cuts 0 s

/-- No semicolon of the text is read in plain text, when the scan starts in the region `r`. -/
def Region.Uncut (r : Region) (k : Nat) (s : List Char) : Prop :=
  ∀ a b, s = a ++ ';' :: b → ¬ (r.readAll k a (';' :: b)).Plain

theorem uncut_cons {r : Region} {c : Char} {s : List Char} (hc : ¬ (r = .plain ∧ c = ';'))
    (h : (r.read c s).region.Uncut (r.read c s).skip s) : r.Uncut 0 (c :: s) := by
  intro a b he hp
  cases a with
  | nil =>
    obtain ⟨rfl, rfl⟩ := List.cons.inj he
    exact hc ⟨hp.1, rfl⟩
  | cons d a =>
    obtain ⟨rfl, rfl⟩ := List.cons.inj he
    exact h a b rfl hp

/-- A text is cut at its first semicolon in plain text, or not at all. -/
theorem exists_cut (r : Region) (k : Nat) (s : List Char) :
    (∃ a b, s = a ++ ';' :: b ∧ r.Uncut k a ∧ (r.readAll k a (';' :: b)).Plain ∧ r.cuts k s = a :: cuts b) ∨
      r.Uncut k s ∧ r.cuts k s = [s] := by
  induction s generalizing r k with
  | nil => exact .inr ⟨fun a b h => by simp at h, rfl⟩
  | cons c s ih =>
    cases k with
    | succ k =>
      have wrap : ∀ {s : List Char}, r.Uncut k s → r.Uncut (k + 1) (c :: s) := by
        intro s h a b he hp
        cases a with
        | nil => cases hp.2
        | cons d a =>
          obtain ⟨rfl, rfl⟩ := List.cons.inj he
          exact h a b rfl hp
      rcases ih r k with ⟨a, b, rfl, hu, hp, hs⟩ | ⟨hu, hs⟩
      · exact .inl ⟨c :: a, b, rfl, wrap hu, hp, by rw [Region.cuts, hs]; rfl⟩
      · exact .inr ⟨wrap hu, by rw [Region.cuts, hs]; rfl⟩
    | zero =>
      by_cases hc : r = .plain ∧ c = ';'
      · obtain ⟨rfl, rfl⟩ := hc
        refine .inl ⟨[], s, rfl, fun a b h => by simp at h, ⟨rfl, rfl⟩, ?_⟩
        simp only [Region.cuts, and_self, ite_true, read_semicolon]
        rfl
      · have hcuts : r.cuts 0 (c :: s) =
            ((r.read c s).region.cuts (r.read c s).skip s).modifyHead (c :: ·) := by
          simp only [Region.cuts, if_neg hc]
        rw [hcuts]
        rcases ih (r.read c s).region (r.read c s).skip with ⟨a, b, rfl, hu, hp, hs⟩ | ⟨hu, hs⟩
        · refine .inl ⟨c :: a, b, rfl, uncut_cons hc ?_, hp, by rw [hs]; rfl⟩
          -- the character reads the same where the text ends with the piece
          have hr : r.read c (a ++ []) = r.read c (a ++ ';' :: b) := Replaces.read_eq (.inl rfl) hp
          rw [List.append_nil] at hr
          rwa [hr]
        · exact .inr ⟨uncut_cons hc hu, by rw [hs]; rfl⟩

/-- Induction along the cuts of a text. -/
theorem cut_induction {P : List Char → Prop} (last : ∀ s, Region.plain.Uncut 0 s → cuts s = [s] → P s)
    (cut : ∀ a b, Region.plain.Uncut 0 a → PlainAt a (';' :: b) → cuts (a ++ ';' :: b) = a :: cuts b → P b →
      P (a ++ ';' :: b)) (s : List Char) : P s := by
  induction hn : s.length using Nat.strong_induction_on generalizing s with
  | _ n ih =>
    rcases exists_cut .plain 0 s with ⟨a, b, rfl, hu, hp, hs⟩ | ⟨hu, hs⟩
    · refine cut a b hu hp hs (ih b.length ?_ b rfl)
      simp only [List.length_append, List.length_cons] at hn
      omega
    · exact last s hu hs

theorem statements_normal (s : List Char) :
    statements (normal s) = (cuts s).flatMap fun piece => statements (normal piece) := by
  induction s using cut_induction with
  | last s _ hs => rw [hs, List.flatMap_singleton]
  | cut a b _ hp hs ih => rw [hs, normal_semicolon hp, statements_append, ih, List.flatMap_cons]

/-! ## Semicolons in quoted names -/

theorem mem_normal_iff {s : List Char} : ';' ∈ normal s ↔ ';' ∈ strip s :=
  mem_lower_iff (by decide) (by decide) (by decide)

theorem mem_normal_of_uncut {s : List Char} (h : Region.plain.Uncut 0 s) :
    ';' ∈ normal s ↔ ∃ a b, s = a ++ ';' :: b ∧ ReadIn .quoted a (';' :: b) := by
  rw [mem_normal_iff, strip, mem_stripFrom_iff]
  constructor
  · intro hx
    obtain ⟨a, b, he, hp | hq⟩ := hx
    · exact absurd hp (h a b he)
    · exact ⟨a, b, he, hq⟩
  · intro hx
    obtain ⟨a, b, he, hq⟩ := hx
    exact ⟨a, b, he, .inr hq⟩

theorem quoted_semicolon_append {a b : List Char} (hp : PlainAt a (';' :: b)) :
    (∃ u v, a ++ ';' :: b = u ++ ';' :: v ∧ ReadIn .quoted u (';' :: v)) ↔
      (∃ u v, a = u ++ ';' :: v ∧ ReadIn .quoted u (';' :: v)) ∨
        ∃ u v, b = u ++ ';' :: v ∧ ReadIn .quoted u (';' :: v) := by
  rw [exists_semicolon_append]
  have hmid : ¬ ReadIn .quoted a (';' :: b) := by
    intro hq
    cases hp.1.symm.trans hq.1
  refine or_congr ?_ ((or_iff_right hmid).trans ?_)
  · refine exists_congr fun u => exists_congr fun v => and_congr_right ?_
    intro he
    subst he
    have := readAll_within (show Replaces [] (';' :: b) from .inl rfl) hp
    rw [List.append_nil, List.cons_append] at this
    rw [ReadIn, ReadIn, this]
  · refine exists_congr fun u => exists_congr fun v => and_congr_right ?_
    intro he
    subst he
    rw [ReadIn, readAll_append_in, List.cons_append, hp.1, hp.2, readAll_cons_in, read_semicolon]
    rfl

theorem quoted_semicolon_iff (s : List Char) :
    (∃ a b, s = a ++ ';' :: b ∧ ReadIn .quoted a (';' :: b)) ↔ ∃ piece ∈ cuts s, ';' ∈ normal piece := by
  induction s using cut_induction with
  | last s hu hs =>
    rw [hs]
    simp [mem_normal_of_uncut hu]
  | cut a b hu hp hs ih =>
    rw [hs, quoted_semicolon_append hp, ih, ← mem_normal_of_uncut hu]
    simp

/-! ## Statements between ends -/

theorem mem_of_mem_pieces {cut : Char → Bool} {s x : List Char} (hx : x ∈ pieces cut s) {c : Char} (hc : c ∈ x) :
    cut c = false := by
  induction s generalizing x with
  | nil =>
    obtain rfl := List.mem_singleton.mp hx
    cases hc
  | cons d s ih =>
    rw [pieces] at hx
    split at hx
    · rcases List.mem_cons.mp hx with rfl | hx
      · cases hc
      · exact ih hx hc
    · rename_i hd
      obtain ⟨w, ws, hw⟩ := List.exists_cons_of_ne_nil (pieces_ne_nil cut s)
      rw [hw] at hx
      rcases List.mem_cons.mp hx with rfl | hx
      · rcases List.mem_cons.mp hc with rfl | hc
        · simpa using hd
        · exact ih (hw ▸ List.mem_cons_self) hc
      · exact ih (hw ▸ List.mem_cons_of_mem w hx) hc

theorem mem_trim_iff {c : Char} (hc : isBlank c = false) {s : List Char} : c ∈ trim s ↔ c ∈ s := by
  have start : ∀ t : List Char, c ∈ t.dropWhile isBlank ↔ c ∈ t := by
    intro t
    refine ⟨fun h => (List.dropWhile_sublist _).subset h, fun h => ?_⟩
    rw [← List.takeWhile_append_dropWhile (p := isBlank) (l := t), List.mem_append] at h
    refine h.resolve_left fun h => ?_
    rw [List.mem_takeWhile_imp h] at hc
    cases hc
  rw [trim, trimEnd, List.mem_reverse, start, List.mem_reverse, trimStart, start]

theorem mem_statements {s t : List Char} (ht : t ∈ statements s) : ';' ∉ t := by
  intro hc
  obtain ⟨hm, -⟩ := List.mem_filter.mp ht
  obtain ⟨x, hx, rfl⟩ := List.mem_map.mp hm
  have := mem_of_mem_pieces hx ((mem_trim_iff (by decide)).mp hc)
  cases this

theorem statements_of_not_mem {s : List Char} (h : ';' ∉ s) :
    statements s = [trim s].filter fun t => !t.isEmpty := by
  rw [statements, pieces_of_not_mem h, List.map_singleton]

theorem statements_normal_iff (s : List Char) :
    statements (normal s) = ((cuts s).map fun piece => trim (normal piece)).filter (fun t => !t.isEmpty) ↔
      ¬ ∃ a b, s = a ++ ';' :: b ∧ ReadIn .quoted a (';' :: b) := by
  rw [quoted_semicolon_iff]
  constructor
  · intro h hx
    obtain ⟨piece, hm, hc⟩ := hx
    have hc := (mem_trim_iff (c := ';') (by decide)).mpr hc
    refine mem_statements (s := normal s) (t := trim (normal piece)) ?_ hc
    rw [h, List.mem_filter]
    refine ⟨List.mem_map_of_mem hm, ?_⟩
    simpa using List.ne_nil_of_mem hc
  · intro h
    rw [statements_normal]
    generalize cuts s = l at h
    induction l with
    | nil => rfl
    | cons piece l ih =>
      have hp : ';' ∉ normal piece := fun hc => h ⟨piece, List.mem_cons_self, hc⟩
      have hl : ¬ ∃ piece ∈ l, ';' ∈ normal piece := fun hx => by
        obtain ⟨x, hx, hc⟩ := hx
        exact h ⟨x, List.mem_cons_of_mem piece hx, hc⟩
      rw [List.flatMap_cons, ih hl, statements_of_not_mem hp, ← List.filter_append]
      rfl

/-- **Ends of statements.** The statements of a text are those of its pieces between the semicolons of plain
text. Each piece is one statement at most exactly where no quoted name holds a semicolon. -/
theorem statements_cut (policy : Policy) (sql : String) :
    (check policy sql).map Checked.statement =
        ((cuts sql.toList).flatMap fun piece => statements (normal piece)).map .ofList ∧
      ((check policy sql).map Checked.statement =
          (((cuts sql.toList).map fun piece => trim (normal piece)).filter fun t => !t.isEmpty).map .ofList ↔
        ¬ ∃ a b, sql.toList = a ++ ';' :: b ∧ ReadIn .quoted a (';' :: b)) := by
  have htexts : (check policy sql).map Checked.statement = (statements (normal sql.toList)).map .ofList := by
    rw [check, List.map_map]
    rfl
  have hinj : Function.Injective (List.map String.ofList) :=
    List.map_injective_iff.mpr fun _ _ h => String.ofList_injective h
  refine ⟨by rw [htexts, statements_normal], ?_⟩
  rw [htexts, hinj.eq_iff, statements_normal_iff]

/-- A quoted name with a semicolon falls apart, and what stands behind it is no DDL any more. -/
theorem check_quoted_semicolon :
    let policy : Policy := ⟨"cb_", ["public"], ["auth"], []⟩
    let sql := "create table \x22cb_a;b\x22 (id int references widgets(id));"
    let whole := "create table cb_a;b (id int references widgets(id))".toList
    (((cuts sql.toList).map fun piece => trim (normal piece)).filter fun t => !t.isEmpty) = [whole] ∧
      checkStatement policy whole = [.missingPrefix "foreign key" (some "widgets")] ∧
      check policy sql = [⟨"create table cb_a", []⟩, ⟨"b (id int references widgets(id))", []⟩] := by
  refine ⟨rfl, ?_, ?_⟩
  · decide
  · decide

end MigrationLint.Sql
