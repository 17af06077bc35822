import MigrationLint.Proofs.WordTexts

/-!
# Foreign keys of a statement

The clauses of a text are read from left to right: each reading takes the first clause there is and goes on
behind its name. What a statement is checked for are the names of the one reading of its foreign keys
(`checkStatement_foreignKeys`), and a clause is left out only if its keyword ends the name of another.
-/

namespace MigrationLint.Sql

open Text

/-! ## Cutting texts -/

/-- A text is cut in one way only into a run of characters of a kind and what is behind it. -/
theorem append_inj_of_halts {P : Char → Bool} {a b s t : List Char} (ha : ∀ c ∈ a, P c = true)
    (hb : ∀ c ∈ b, P c = true) (hs : Halts P s) (ht : Halts P t) (h : a ++ s = b ++ t) : a = b ∧ s = t := by
  have hrun := congrArg (List.takeWhile P) h
  rw [List.takeWhile_append_of_pos ha, List.takeWhile_append_of_pos hb, hs.takeWhile_eq_nil,
    ht.takeWhile_eq_nil, List.append_nil, List.append_nil] at hrun
  subst hrun
  exact ⟨rfl, List.append_cancel_left h⟩

theorem halts_gap {g : List Char} (hg : IsGap g) (s : List Char) : Halts (fun c => !isBlank c) (g ++ s) := by
  apply halts_append hg.1
  intro c hc
  simp [hg.2 c (List.mem_of_mem_head? hc)]

theorem words_cases (s : List Char) :
    ((∀ c ∈ s, isBlank c = false) ∧ words s = [s]) ∨
      ∃ w g t, s = w ++ (g ++ t) ∧ (∀ c ∈ w, isBlank c = false) ∧ IsGap g ∧ Halts isBlank t ∧
        words s = w :: words t := by
  obtain ⟨r, w, hw, hr, rfl⟩ : ∃ r w, (∀ c ∈ w, isBlank c = false) ∧ Halts (fun c => !isBlank c) r ∧ w ++ r = s :=
    ⟨_, s.takeWhile fun c => !isBlank c, fun c hc => by simpa using List.mem_takeWhile_imp hc, head_dropWhile,
      List.takeWhile_append_dropWhile⟩
  cases r with
  | nil =>
    left
    rw [List.append_nil]
    exact ⟨hw, words_single hw⟩
  | cons b r =>
    have hb : isBlank b = true := by simpa using hr b rfl
    have hg : IsGap ((b :: r).takeWhile isBlank) :=
      ⟨by simp [hb], fun c hc => List.mem_takeWhile_imp hc⟩
    right
    refine ⟨w, _, (b :: r).dropWhile isBlank, ?_, hw, hg, head_dropWhile, ?_⟩
    · rw [List.takeWhile_append_dropWhile]
    · conv_lhs => rw [← List.takeWhile_append_dropWhile (p := isBlank) (l := b :: r)]
      rw [words_word hw, words_gap hg head_dropWhile, List.modifyHead_cons, List.append_nil]

theorem nameRun_of_words {s w : List Char} {ws : List Word} (h : words s = w :: ws) :
    nameRun w = nameRun s := by
  obtain ⟨ws', hw⟩ := words_head s
  rw [h] at hw
  rw [(List.cons.inj hw).1, nameRun, nameRun, List.takeWhile_takeWhile]
  congr 1
  funext c
  by_cases hc : isNameChar c = true
  · simp [hc, isBlank_of_isNameChar hc]
  · simp [hc]

theorem words_behind_name {s w : List Char} {ws : List Word} (h : words s = w :: ws) :
    words (s.dropWhile isNameChar) = w.dropWhile isNameChar :: ws := by
  have hrun := nameRun_of_words h
  rw [← nameRun_append_rest w] at h
  obtain ⟨r, hs, hr⟩ := exists_of_words h
  rw [hrun] at hs
  rwa [List.append_cancel_left ((nameRun_append_rest s).trans hs)]

/-! ## Clauses of a text -/

/-- A clause at its place in a text. The name is as long as it can be. -/
structure Clause (key : Word) (s : List Char) where
  before : List Char
  gap : List Char
  name : Word
  after : List Char
  text : s = before ++ (key ++ (gap ++ (name ++ after)))
  boundary : ∀ c ∈ before.getLast?, isWordChar c = false
  isGap : IsGap gap
  ne_nil : name ≠ []
  chars : ∀ c ∈ name, isNameChar c = true
  halts : Halts isNameChar after

namespace Clause

variable {key : Word} {s : List Char}

def start (c : Clause key s) : Nat := c.before.length

def nameStart (c : Clause key s) : Nat := c.start + (key.length + c.gap.length)

/-- The place behind the name. -/
def stop (c : Clause key s) : Nat := c.nameStart + c.name.length

theorem start_le_stop (c : Clause key s) : c.start ≤ c.stop := by
  unfold stop nameStart
  omega

theorem halts_name (c : Clause key s) : Halts isBlank (c.name ++ c.after) := by
  apply halts_append c.ne_nil
  intro a ha
  exact isBlank_of_isNameChar (c.chars a (List.mem_of_mem_head? ha))

theorem eq_of_start {c d : Clause key s} (h : c.start = d.start) : c = d := by
  have hc := c.halts_name
  have hd := d.halts_name
  obtain ⟨b, g, n, r, ht, hb, hg, hne, hn, hr⟩ := c
  obtain ⟨b', g', n', r', ht', hb', hg', hne', hn', hr'⟩ := d
  obtain ⟨rfl, hrest⟩ := List.append_inj (ht.symm.trans ht') h
  obtain ⟨rfl, hrest⟩ := append_inj_of_halts hg.2 hg'.2 hc hd (List.append_cancel_left hrest)
  obtain ⟨rfl, rfl⟩ := append_inj_of_halts hn hn' hr hr' hrest
  rfl

theorem exists_of_le (c : Clause key s) {u x : List Char} (hs : s = u ++ x) (h : u.length ≤ c.start) :
    ∃ b, c.before = u ++ b ∧ x = b ++ (key ++ (c.gap ++ (c.name ++ c.after))) := by
  have htext := hs.symm.trans c.text
  have hpre : u <+: c.before :=
    List.prefix_of_prefix_length_le ⟨x, htext⟩ (List.prefix_append _ _) h
  obtain ⟨b, hb⟩ := hpre
  refine ⟨b, hb.symm, ?_⟩
  rw [← hb, List.append_assoc] at htext
  exact List.append_cancel_left htext

/-- A clause behind `u` has its keyword at the end of the next word, or it lies behind that word and its gap. -/
theorem ends_word (hk : IsKeyword key) (c : Clause key s) {u w g x : List Char} (hs : s = u ++ (w ++ (g ++ x)))
    (hw : ∀ a ∈ w, isBlank a = false) (hg : IsGap g) (hx : Halts isBlank x) (hle : u.length ≤ c.start) :
    (∃ a, w = a ++ key ∧ c.before = u ++ a ∧ c.gap = g ∧ c.name ++ c.after = x) ∨
      u.length + (w.length + g.length) ≤ c.start := by
  obtain ⟨b, hb, hx'⟩ := c.exists_of_le hs hle
  have hnot : ∀ {v : List Char}, (∀ a ∈ v, isBlank a = false) → ∀ a ∈ v, (!isBlank a) = true := by
    intro v hv a ha
    simp [hv a ha]
  by_cases hblank : ∀ a ∈ b, isBlank a = false
  · have hword : ∀ a ∈ b ++ key, isBlank a = false := by
      intro a ha
      exact (List.mem_append.mp ha).elim (hblank a) (hk.not_blank a)
    rw [← List.append_assoc b] at hx'
    obtain ⟨rfl, hrest⟩ := append_inj_of_halts (hnot hw) (hnot hword) (halts_gap hg x) (halts_gap c.isGap _) hx'
    obtain ⟨rfl, rfl⟩ := append_inj_of_halts hg.2 c.isGap.2 hx c.halts_name hrest
    exact .inl ⟨b, rfl, hb, rfl, rfl⟩
  · right
    -- the text before the keyword goes beyond the word, so it contains the gap
    have hne : (b.dropWhile fun a => !isBlank a) ≠ [] := by
      intro he
      apply hblank
      simpa using List.dropWhile_eq_nil_iff.mp he
    have hb' := List.takeWhile_append_dropWhile (p := fun a => !isBlank a) (l := b)
    have hhead : Halts (fun a => !isBlank a) (b.dropWhile fun a => !isBlank a) := head_dropWhile
    generalize b.dropWhile (fun a => !isBlank a) = r at hne hb' hhead
    rw [← hb', List.append_assoc] at hx'
    obtain ⟨hword, hrest⟩ := append_inj_of_halts (hnot hw)
      (fun a ha => List.mem_takeWhile_imp (p := fun a => !isBlank a) ha)
      (halts_gap hg x) (halts_append hne hhead _) hx'
    have hgap : g = r.takeWhile isBlank := by
      have := congrArg (List.takeWhile isBlank) hrest
      rwa [List.takeWhile_append_of_pos hg.2, hx.takeWhile_eq_nil, List.append_nil, takeWhile_append_of_stop] at this
      intro _ a ha
      rw [List.head?_append_of_ne_nil _ hk.1] at ha
      exact hk.not_blank a (List.mem_of_mem_head? ha)
    have hlen : g.length ≤ r.length := by
      rw [hgap]
      exact (List.takeWhile_prefix _).length_le
    rw [start, hb, ← hb', ← hword]
    simp only [List.length_append]
    omega

/-- A clause that starts inside another has its keyword at the end of the name of that one. -/
theorem ends_name (hk : IsKeyword key) {c d : Clause key s} (hle : d.start ≤ c.start) (hlt : c.start < d.stop) :
    c = d ∨ d.nameStart ≤ c.start ∧ c.start + key.length = d.stop := by
  rcases c.ends_word hk d.text hk.not_blank d.isGap d.halts_name hle with ⟨a, ha, hb, -, -⟩ | hge
  · left
    obtain rfl : a = [] := List.eq_nil_of_length_eq_zero (by simpa using congrArg List.length ha)
    apply eq_of_start
    rw [start, hb, List.append_nil, start]
  · right
    have hlen : (d.before ++ (key ++ d.gap)).length = d.nameStart := by simp [nameStart, start]
    have hs : s = (d.before ++ (key ++ d.gap)) ++ (d.name ++ d.after) := by simpa using d.text
    obtain ⟨b, hb, hx⟩ := c.exists_of_le hs (hlen ▸ hge)
    have hstart : c.start = d.nameStart + b.length := by rw [start, hb, List.length_append, hlen]
    have hpre : b <+: d.name := by
      apply List.prefix_of_prefix_length_le ⟨_, hx.symm⟩ (List.prefix_append _ _)
      unfold stop at hlt
      omega
    obtain ⟨n, hn⟩ := hpre
    rw [← hn, List.append_assoc] at hx
    -- the rest of the name is the keyword, since the blank behind the keyword ends both
    have hrest : n = key := by
      refine (append_inj_of_halts (P := isNameChar) ?_ ?_ d.halts ?_ (List.append_cancel_left hx)).1
      · exact fun a ha => d.chars a (hn ▸ List.mem_append_right b ha)
      · exact fun a ha => isNameChar_of_isLower (hk.2 a ha)
      · exact (halts_gap c.isGap _).of_imp fun a ha => by simp [isBlank_of_isNameChar ha]
    refine ⟨hge, ?_⟩
    rw [stop, hstart, ← hn, hrest, List.length_append, Nat.add_assoc]

end Clause

/-! ## Reading clauses -/

/-- The clauses are those that are read from the place on, from left to right. -/
inductive ReadsFrom {key : Word} {s : List Char} : Nat → List (Clause key s) → Prop
  | done {i : Nat} : (∀ c : Clause key s, c.start < i) → ReadsFrom i []
  | next {i : Nat} {c : Clause key s} {cs : List (Clause key s)} :
      i ≤ c.start → (∀ d : Clause key s, i ≤ d.start → c.start ≤ d.start) → ReadsFrom c.stop cs →
        ReadsFrom i (c :: cs)

namespace ReadsFrom

variable {key : Word} {s : List Char} {i : Nat} {cs : List (Clause key s)}

theorem unique (h : ReadsFrom i cs) {ds : List (Clause key s)} (hd : ReadsFrom i ds) : cs = ds := by
  induction h generalizing ds with
  | done hnone =>
    cases hd with
    | done _ => rfl
    | @next _ d _ hle _ _ => exact absurd (hnone d) (Nat.not_lt.mpr hle)
  | @next i c cs hle hfirst _ ih =>
    cases hd with
    | done hnone => exact absurd (hnone c) (Nat.not_lt.mpr hle)
    | @next _ d _ hle' hfirst' hrest =>
      obtain rfl : c = d := Clause.eq_of_start (Nat.le_antisymm (hfirst d hle') (hfirst' c hle))
      rw [ih hrest]

/-- Reading may start earlier if no clause starts before. -/
theorem of_none {j : Nat} (h : ReadsFrom j cs) (hij : i ≤ j) (hnone : ∀ c : Clause key s, i ≤ c.start → j ≤ c.start) :
    ReadsFrom i cs := by
  cases h with
  | done hlt =>
    apply done
    intro c
    by_contra hc
    exact absurd (hlt c) (Nat.not_lt.mpr (hnone c (Nat.not_lt.mp hc)))
  | next hle hfirst hrest => exact next (Nat.le_trans hij hle) (fun d hd => hfirst d (hnone d hd)) hrest

theorem le_start (h : ReadsFrom i cs) : ∀ c ∈ cs, i ≤ c.start := by
  induction h with
  | done _ => simp
  | @next i c cs hle _ _ ih =>
    intro d hd
    rcases List.mem_cons.mp hd with rfl | hd
    · exact hle
    · exact Nat.le_trans hle (Nat.le_trans c.start_le_stop (ih d hd))

/-- The clauses stand apart, in the order of the text. -/
theorem pairwise (h : ReadsFrom i cs) : cs.Pairwise fun c d => c.stop ≤ d.start := by
  induction h with
  | done _ => exact .nil
  | next _ _ hrest ih => exact .cons hrest.le_start ih

/-- A clause that is not read has its keyword at the end of the name of one that is. -/
theorem covers (hk : IsKeyword key) (h : ReadsFrom i cs) {c : Clause key s} (hc : i ≤ c.start) :
    c ∈ cs ∨ ∃ d ∈ cs, d.nameStart ≤ c.start ∧ c.start + key.length = d.stop := by
  induction h with
  | done hnone => exact absurd (hnone c) (Nat.not_lt.mpr hc)
  | @next i d cs hle hfirst _ ih =>
    by_cases hbehind : d.stop ≤ c.start
    · rcases ih hbehind with hm | ⟨e, he, hcover⟩
      · exact .inl (List.mem_cons_of_mem d hm)
      · exact .inr ⟨e, List.mem_cons_of_mem d he, hcover⟩
    · rcases Clause.ends_name hk (hfirst c hc) (Nat.not_le.mp hbehind) with rfl | hcover
      · exact .inl (List.mem_cons_self ..)
      · exact .inr ⟨d, List.mem_cons_self .., hcover⟩

end ReadsFrom

/-! ## Clauses as they are read from words -/

section
variable {key : Word} (hk : IsKeyword key)
include hk

/-- What is read before a word matters to a keyword at its front only, and there a name cannot stand. -/
theorem endsWithWord_behind {u w : List Char} (hu : (∀ a ∈ u.getLast?, isWordChar a = false) ∨ Halts isNameChar w) :
    endsWithWord key [] w = true ↔ ∃ v, w = v ++ key ∧ ∀ a ∈ (u ++ v).getLast?, isWordChar a = false := by
  rw [endsWithWord_iff]
  apply exists_congr
  intro v
  apply and_congr_right
  rintro rfl
  cases v with
  | nil =>
    rw [List.nil_append, List.append_nil]
    refine iff_of_true (by simp) (hu.resolve_right fun hhalts => ?_)
    obtain ⟨c, k, rfl⟩ := List.exists_cons_of_ne_nil hk.1
    have hc := isNameChar_of_isLower (hk.2 c (by simp))
    simp [hhalts c rfl] at hc
  | cons b v => simp

section
variable {s u w g y : List Char} (hs : s = u ++ (w ++ (g ++ y))) (hw : ∀ a ∈ w, isBlank a = false) (hg : IsGap g)
  (hy : Halts isBlank y) (hu : (∀ a ∈ u.getLast?, isWordChar a = false) ∨ Halts isNameChar w)
include hs hw hg hy hu

/-- A word that ends with the keyword starts a clause if a name is behind it, and no clause is before that. -/
theorem exists_clause (hends : endsWithWord key [] w = true) (hname : nameRun y ≠ []) :
    ∃ c : Clause key s, c.name = nameRun y ∧ u.length ≤ c.start ∧
      (∀ d : Clause key s, u.length ≤ d.start → c.start ≤ d.start) ∧
      c.stop = (u ++ (w ++ (g ++ nameRun y))).length := by
  obtain ⟨v, rfl, hbound⟩ := (endsWithWord_behind hk hu).mp hends
  let c : Clause key s :=
    { before := u ++ v, gap := g, name := nameRun y, after := y.dropWhile isNameChar,
      text := by simp [hs, nameRun_append_rest], boundary := hbound, isGap := hg, ne_nil := hname,
      chars := fun a ha => List.mem_takeWhile_imp ha, halts := head_dropWhile }
  refine ⟨c, rfl, by simp [c, Clause.start], fun d hd => ?_, ?_⟩
  · rcases d.ends_word hk hs hw hg hy hd with ⟨a, ha, hb, -⟩ | hge
    · obtain rfl := List.append_cancel_right ha
      exact Nat.le_of_eq (congrArg List.length hb.symm)
    · simp only [c, Clause.start, List.length_append] at hge ⊢
      omega
  · simp [c, Clause.stop, Clause.nameStart, Clause.start, Nat.add_assoc]

/-- Otherwise the next clause is behind the word and its gap. -/
theorem no_clause (hnot : ¬ (endsWithWord key [] w = true ∧ nameRun y ≠ [])) (c : Clause key s)
    (hc : u.length ≤ c.start) : (u ++ (w ++ g)).length ≤ c.start := by
  rcases c.ends_word hk hs hw hg hy hc with ⟨a, ha, hb, -, hname⟩ | hge
  · refine absurd ⟨(endsWithWord_behind hk hu).mpr ⟨a, ha, hb ▸ c.boundary⟩, ?_⟩ hnot
    rw [← hname, nameRun_append_of_all c.chars]
    simp [c.ne_nil]
  · simpa using hge

end

/-- The clauses of the words of a text are those that are read from the text. -/
theorem exists_readsFrom {s : List Char} {w : Word} {ws : List Word} {u x : List Char} (hs : s = u ++ x)
    (hw : words x = w :: ws) (hu : (∀ a ∈ u.getLast?, isWordChar a = false) ∨ Halts isNameChar w) :
    ∃ cs : List (Clause key s), ReadsFrom u.length cs ∧ cs.map Clause.name = clauses key [] w ws := by
  induction ws generalizing w u x with
  | nil =>
    rcases words_cases x with ⟨hblank, -⟩ | ⟨v, g, y, -, -, -, -, hv⟩
    · refine ⟨[], .done fun c => Nat.not_le.mp fun hle => ?_, rfl⟩
      obtain ⟨b, -, hx⟩ := c.exists_of_le hs hle
      obtain ⟨a, ha, hb⟩ := c.isGap.starts
      have := hblank a (by simp [hx, List.mem_of_mem_head? ha])
      simp [hb] at this
    · obtain ⟨vs, hvs⟩ := words_head y
      rw [hw, hvs] at hv
      cases hv
  | cons t ws ih =>
    rcases words_cases x with ⟨-, hv⟩ | ⟨v, g, y, rfl, hv, hg, hy, hwords⟩
    · rw [hw] at hv
      cases hv
    rw [hw] at hwords
    obtain ⟨rfl, hrest⟩ := List.cons.inj hwords
    have hrun := nameRun_of_words hrest.symm
    by_cases hclause : endsWithWord key [] w = true ∧ nameRun y ≠ []
    · obtain ⟨c, hname, hle, hfirst, hstop⟩ := exists_clause hk hs hv hg hy hu hclause.1 hclause.2
      have hbehind : s = (u ++ (w ++ (g ++ nameRun y))) ++ y.dropWhile isNameChar := by
        simp [hs, nameRun_append_rest]
      obtain ⟨cs, hreads, hnames⟩ := ih hbehind (words_behind_name hrest.symm) (.inr head_dropWhile)
      refine ⟨c :: cs, .next hle hfirst (hstop ▸ hreads), ?_⟩
      rw [clauses, hrun, if_pos (by simpa using hclause), List.map_cons, hname, hnames]
    · have hlast : ∀ a ∈ (u ++ (w ++ g)).getLast?, isWordChar a = false := by
        intro a ha
        rw [← List.append_assoc, List.getLast?_append_of_ne_nil _ hg.1] at ha
        exact isWordChar_of_isBlank (hg.2 a (List.mem_of_getLast? ha))
      obtain ⟨cs, hreads, hnames⟩ := ih (u := u ++ (w ++ g)) (by simp [hs]) hrest.symm (.inl hlast)
      refine ⟨cs, hreads.of_none (by simp) (no_clause hk hs hv hg hy hu hclause), ?_⟩
      rw [clauses, hrun, if_neg (by simpa using hclause), hnames]

end

/-! ## Foreign keys -/

/-- A clause that names the target of a foreign key. -/
abbrev ForeignKey (s : List Char) := Clause "references".toList s

theorem exists_foreignKeys (s : List Char) :
    ∃ cs : List (ForeignKey s), ReadsFrom 0 cs ∧ cs.map (fun c => .ofList c.name) = foreignKeys s := by
  obtain ⟨ws, hw⟩ := words_head s
  obtain ⟨cs, hreads, hnames⟩ := exists_readsFrom isKeyword_references (List.nil_append s).symm hw (.inl (by simp))
  refine ⟨cs, hreads, ?_⟩
  unfold foreignKeys
  rw [hw]
  dsimp only
  rw [← hnames, List.map_map]
  rfl

/-- **Foreign keys.** The problems of a DDL statement, recognized or not, end with those of the names of its
foreign keys, of all that are read from left to right and of each once. -/
theorem checkStatement_foreignKeys (p : Policy) (s : List Char) :
    ∃ cs : List (ForeignKey s),
      ReadsFrom 0 cs ∧ (∀ ds, ReadsFrom 0 ds → ds = cs) ∧
      cs.Pairwise (fun c d => c.stop ≤ d.start) ∧
      (∀ c : ForeignKey s, c ∈ cs ∨ ∃ d ∈ cs, d.nameStart ≤ c.start ∧ c.start + "references".length = d.stop) ∧
      checkStatement p s =
        if isDdl s then
          schemaProblems p s ++
            (formProblems p s).filter (fun x => !(x.isSchema && (schemaProblems p s).contains x)) ++
            cs.flatMap fun c => p.checkName "foreign key" (.ofList c.name)
        else schemaProblems p s := by
  obtain ⟨cs, hreads, hkeys⟩ := exists_foreignKeys s
  refine ⟨cs, hreads, fun ds hd => hd.unique hreads, hreads.pairwise, fun c => ?_, ?_⟩
  · exact hreads.covers isKeyword_references (Nat.zero_le _)
  · unfold checkStatement foreignKeyProblems
    rw [← hkeys, List.flatMap_map]

/-- The same target twice, which itself ends with the keyword, in a statement that is not recognized. -/
theorem checkStatement_foreignKeys_repeated :
    let p : Policy := ⟨"cb_", ["public"], ["auth"], []⟩
    let s := "alter domain d references a.references references auth.x references\na.references y".toList
    isDdl s = true ∧ detect s = none ∧
      ∃ cs : List (ForeignKey s), ReadsFrom 0 cs ∧
        (cs.flatMap fun c => p.checkName "foreign key" (.ofList c.name)) =
          [.schemaNotAllowlisted "a", .missingPrefix "foreign key" (some "references"),
           .blockedSchema "auth", .missingPrefix "foreign key" (some "x"),
           .schemaNotAllowlisted "a", .missingPrefix "foreign key" (some "references")] := by
  intro p s
  have hddl : isDdl s = true := by decide +kernel
  refine ⟨hddl, by decide +kernel, ?_⟩
  obtain ⟨cs, hreads, -, -, -, hcheck⟩ := checkStatement_foreignKeys p s
  refine ⟨cs, hreads, ?_⟩
  rw [if_pos hddl] at hcheck
  apply List.append_cancel_left
  rw [← hcheck]
  decide +kernel

end MigrationLint.Sql
