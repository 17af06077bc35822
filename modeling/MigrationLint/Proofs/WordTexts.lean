import MigrationLint.Proofs.Detection
import MigrationLint.Proofs.Written

/-!
# Words and the text they are read from

Forms read words, not text. Here the words of a text are given by its parts (`Spaced.words_append`,
`words_spacious`), and what is asked of the words behind a name is told by the text behind it
(`dotColumn_of_column`).
-/

namespace MigrationLint.Sql

open Text

/-! ## What characters go on -/

theorem halts_append {isChar : Char → Bool} {s : List Char} (hne : s ≠ []) (hs : Halts isChar s) (t : List Char) :
    Halts isChar (s ++ t) := by
  rw [Halts, List.head?_append_of_ne_nil _ hne]
  exact hs

/-- Blanks go on with no name. -/
theorem halts_blanks {isChar : Char → Bool} (hblank : ∀ {c}, isChar c = true → isBlank c = false) {g : List Char}
    (hg : ∀ b ∈ g, isBlank b = true) {t : List Char} (ht : Halts isChar t) : Halts isChar (g ++ t) := by
  cases g with
  | nil => exact ht
  | cons b g =>
    intro c hc
    obtain rfl := Option.some.inj hc
    rw [Bool.eq_false_iff]
    intro hchar
    simp [hblank hchar] at hg

theorem halts_cons {isChar : Char → Bool} {c : Char} (hc : isChar c = false) (s : List Char) :
    Halts isChar (c :: s) := by
  intro d hd
  obtain rfl := Option.some.inj hd
  exact hc

/-! ## Words of a text -/

theorem halts_trimStart (s : List Char) : Halts isBlank (trimStart s) := head_dropWhile

theorem trimStart_append {g : List Char} (hg : ∀ c ∈ g, isBlank c = true) {s : List Char} (hs : Halts isBlank s) :
    trimStart (g ++ s) = s := by
  rw [trimStart, List.dropWhile_append_of_pos hg, hs.dropWhile_eq_self]

theorem words_trimStart {s : List Char} (h : ∃ c ∈ s.head?, isBlank c = true) :
    words s = [] :: words (trimStart s) := by
  induction s with
  | nil => simp at h
  | cons c s ih =>
    have hc : isBlank c = true := by simpa using h
    rw [words_blank hc, trimStart, List.dropWhile_cons_of_pos hc]
    cases s with
    | nil => rfl
    | cons d s =>
      cases hd : isBlank d with
      | true =>
        rw [if_pos (by simpa using hd)]
        exact ih ⟨d, rfl, hd⟩
      | false => rw [if_neg (by simp [hd]), List.dropWhile_cons_of_neg (by simp [hd])]

theorem words_gap {g : List Char} (hg : IsGap g) {s : List Char} (hs : Halts isBlank s) :
    words (g ++ s) = [] :: words s := by
  obtain ⟨c, hc, hb⟩ := hg.starts
  rw [words_trimStart ⟨c, by rw [List.head?_append, hc]; rfl, hb⟩, trimStart_append hg.2 hs]

theorem words_word {w : List Char} (hw : ∀ c ∈ w, isBlank c = false) (s : List Char) :
    words (w ++ s) = (words s).modifyHead (w ++ ·) := by
  induction w with
  | nil => exact (congrFun List.modifyHead_id _).symm
  | cons c w ih =>
    rw [List.forall_mem_cons] at hw
    rw [List.cons_append, words_cons hw.1, ih hw.2, List.modifyHead_modifyHead]
    rfl

theorem words_single {w : List Char} (hw : ∀ c ∈ w, isBlank c = false) : words w = [w] := by
  conv_lhs => rw [← List.append_nil w, words_word hw]
  simp [words]

theorem prefix_of_words {s w : List Char} {ws : List (List Char)} (h : words s = w :: ws) :
    w <+: s ∧ ∀ c ∈ w, isBlank c = false := by
  obtain ⟨ws', hw⟩ := words_head s
  rw [h] at hw
  obtain ⟨rfl, -⟩ := List.cons.inj hw
  exact ⟨List.takeWhile_prefix _, fun c hc => by simpa using List.mem_takeWhile_imp hc⟩

theorem Halts.of_words {isChar : Char → Bool} {s w : List Char} {ws : List (List Char)} (hs : Halts isChar s)
    (h : words s = w :: ws) : Halts isChar w := by
  obtain ⟨⟨t, rfl⟩, -⟩ := prefix_of_words h
  exact fun c hc => hs c (by rw [List.head?_append, hc]; rfl)

/-- The start of the first word can be taken off. -/
theorem exists_of_words {s u r : List Char} {ws : List (List Char)} (h : words s = (u ++ r) :: ws) :
    ∃ t, s = u ++ t ∧ words t = r :: ws := by
  obtain ⟨hpre, hblank⟩ := prefix_of_words h
  obtain ⟨t, rfl⟩ := (List.prefix_append u r).trans hpre
  obtain ⟨ws', hw⟩ := words_head t
  refine ⟨t, rfl, ?_⟩
  rw [words_word fun c hc => hblank c (List.mem_append_left r hc), hw, List.modifyHead_cons] at h
  obtain ⟨hr, rfl⟩ := List.cons.inj h
  rw [hw, List.append_cancel_left hr]

theorem words_spacious {x : List Char} (hne : x ≠ []) (hx : Spacious x) :
    ∃ w W, words x = w :: (W ++ [[]]) ∧ ∀ y, Halts isBlank y → words (x ++ y) = w :: (W ++ words y) := by
  induction x with
  | nil => exact absurd rfl hne
  | cons c x ih =>
    cases x with
    | nil =>
      have hc : isBlank c = true := hx c rfl
      have hgap : IsGap [c] := ⟨by simp, by simpa using hc⟩
      exact ⟨[], [], words_gap hgap (halts_nil _), fun y hy => words_gap hgap hy⟩
    | cons d x =>
      obtain ⟨w, W, hw, hW⟩ := ih (by simp) fun a ha => hx a (by simpa [List.getLast?_cons] using ha)
      cases hc : isBlank c with
      | false =>
        refine ⟨c :: w, W, by rw [words_cons hc, hw]; rfl, fun y hy => ?_⟩
        rw [List.cons_append, words_cons hc, hW y hy]
        rfl
      | true =>
        cases hd : isBlank d with
        | true =>
          refine ⟨w, W, by rw [words_blank hc, if_pos (by simpa using hd), hw], fun y hy => ?_⟩
          rw [List.cons_append, words_blank hc, if_pos (by simpa using hd), hW y hy]
        | false =>
          refine ⟨[], w :: W, by rw [words_blank hc, if_neg (by simp [hd]), hw]; rfl, fun y hy => ?_⟩
          rw [List.cons_append, words_blank hc, if_neg (by simp [hd]), hW y hy]
          rfl

/-- A word behind the first stands between blanks. -/
theorem infix_of_mem_words {s w : List Char} (h : w ∈ (words s).tail) :
    ∃ a b, s = a ++ (w ++ b) ∧ a ≠ [] ∧ Spacious a ∧ ∀ c ∈ b.head?, isBlank c = true := by
  induction s with
  | nil => simp [words] at h
  | cons c s ih =>
    have later : w ∈ (words s).tail →
        ∃ a b, c :: s = a ++ (w ++ b) ∧ a ≠ [] ∧ Spacious a ∧ ∀ c ∈ b.head?, isBlank c = true := by
      intro h
      obtain ⟨a, b, rfl, ha, hlast, hb⟩ := ih h
      refine ⟨c :: a, b, rfl, by simp, fun d hd => hlast d ?_, hb⟩
      rwa [show c :: a = [c] ++ a from rfl, List.getLast?_append_of_ne_nil _ ha] at hd
    cases hc : isBlank c with
    | false =>
      rw [words_cons hc] at h
      obtain ⟨ws, hw⟩ := words_head s
      exact later (by simpa [hw] using h)
    | true =>
      rw [words_blank hc] at h
      split at h
      · exact later h
      · obtain ⟨ws, hw⟩ := words_head s
        rw [hw, List.tail_cons, List.mem_cons] at h
        rcases h with rfl | h
        · refine ⟨[c], s.dropWhile fun c => !isBlank c, ?_, by simp, by simpa [Spacious] using hc, ?_⟩
          · rw [List.takeWhile_append_dropWhile]
            rfl
          · intro d hd
            simpa using head_dropWhile d hd
        · exact later (by rwa [hw])

/-! ## Blanks between words -/

theorem skipBlank_words {s w : List Char} {ws : List (List Char)} (h : words s = w :: ws) :
    words (trimStart s) = (skipBlank w ws).1 :: (skipBlank w ws).2 := by
  cases s with
  | nil =>
    cases h
    rfl
  | cons c s =>
    cases hc : isBlank c with
    | true =>
      rw [words_trimStart ⟨c, rfl, hc⟩] at h
      obtain ⟨rfl, rfl⟩ := List.cons.inj h
      obtain ⟨ws, hw⟩ := words_head (trimStart (c :: s))
      rw [hw]
      rfl
    | false =>
      have hs : trimStart (c :: s) = c :: s := List.dropWhile_cons_of_neg (by simp [hc])
      obtain ⟨ws', hw⟩ := words_head s
      rw [hs, h]
      rw [words_cons hc, hw] at h
      obtain ⟨rfl, rfl⟩ := List.cons.inj h
      rfl

theorem head?_of_words {s w : List Char} {ws : List (List Char)} (hs : Halts isBlank s) (h : words s = w :: ws) :
    w.head? = s.head? := by
  cases s with
  | nil =>
    cases h
    rfl
  | cons c s =>
    rw [words_cons (hs c rfl)] at h
    obtain ⟨ws', hw⟩ := words_head s
    rw [hw] at h
    obtain ⟨rfl, -⟩ := List.cons.inj h
    rfl

theorem head?_skipBlank {s w : List Char} {ws : List (List Char)} (h : words s = w :: ws) :
    (skipBlank w ws).1.head? = (trimStart s).head? :=
  head?_of_words (halts_trimStart s) (skipBlank_words h)

theorem dotColumn_eq_false {s w : List Char} {ws : List (List Char)} (h : words s = w :: ws)
    (hs : (trimStart s).head? ≠ some '.') : dotColumn w ws = false := by
  rw [← head?_skipBlank h] at hs
  unfold dotColumn
  split
  · rename_i heq
    rw [heq] at hs
    exact absurd rfl hs
  · rfl

theorem dotColumn_eq_true {s r w : List Char} {ws : List (List Char)} (h : words s = w :: ws)
    (hs : trimStart s = '.' :: r) (hr : ∃ c ∈ (trimStart r).head?, isIdentChar c = true) :
    dotColumn w ws = true := by
  have hskip := skipBlank_words h
  obtain ⟨ws', hw⟩ := words_head r
  rw [hs, words_cons (by decide), hw] at hskip
  obtain ⟨hx, hy⟩ := List.cons.inj hskip
  obtain ⟨c, hc, hident⟩ := hr
  have hdot : c ≠ '.' := by
    rintro rfl
    exact absurd hident (by decide)
  have hpair : skipBlank w ws = ('.' :: (r.takeWhile fun c => !isBlank c), ws') := Prod.ext hx.symm hy.symm
  rw [dotColumn, hpair]
  simp [head?_skipBlank hw, Option.mem_def.mp hc, isNameChar_iff.mpr (.inl hident), hdot]

/-! ## Keywords and names -/

theorem Spaced.words_append {us : List Word} {s : List Char} (h : Spaced us s) (hus : ∀ w ∈ us, IsKeyword w)
    {t : List Char} (ht : Halts isBlank t) : Halts isBlank (s ++ t) ∧ words (s ++ t) = us ++ words t := by
  induction h with
  | nil => exact ⟨ht, rfl⟩
  | @cons w g s ws hg h ih =>
    rw [List.forall_mem_cons] at hus
    obtain ⟨hhalts, hwords⟩ := ih hus.2
    have hw := hus.1.not_blank
    rw [List.append_assoc, List.append_assoc]
    constructor
    · exact halts_append hus.1.1 (fun c hc => hw c (List.mem_of_mem_head? hc)) _
    · rw [words_word hw, words_gap hg hhalts, hwords, List.modifyHead_cons, List.append_nil]
      rfl

/-- The words of a text that starts with keywords and a name. What is behind the name only goes on with its word. -/
theorem Spaced.words_name {isChar : Char → Bool} (hblank : ∀ {c}, isChar c = true → isBlank c = false)
    {us : List Word} {s : List Char} (h : Spaced us s) (hus : ∀ w ∈ us, IsKeyword w) {n : Word}
    (hn : IsName isChar n) (t : List Char) :
    Halts isBlank (s ++ (n ++ t)) ∧ ∃ x ws, words t = x :: ws ∧ words (s ++ (n ++ t)) = us ++ (n ++ x) :: ws := by
  have hname : ∀ c ∈ n, isBlank c = false := fun c hc => hblank (hn.chars c hc)
  have hhead : Halts isBlank (n ++ t) := halts_append hn.ne_nil (fun c hc => hname c (List.mem_of_mem_head? hc)) t
  obtain ⟨hhalts, hwords⟩ := h.words_append hus hhead
  obtain ⟨ws, hw⟩ := words_head t
  refine ⟨hhalts, _, ws, hw, ?_⟩
  rw [hwords, words_word hname, hw]
  rfl

/-! ## Columns -/

theorem trimStart_ident {c : List Char} (hne : c ≠ []) (hc : ∀ d ∈ c, isIdentChar d = true) (t : List Char) :
    Halts isBlank (c ++ t) ∧ (trimStart (c ++ t)).head? ≠ some '.' := by
  obtain ⟨d, c, rfl⟩ := List.exists_cons_of_ne_nil hne
  have hd := hc d (by simp)
  have hhalts : Halts isBlank (d :: c ++ t) := halts_cons (isBlank_of_isWordChar (isWordChar_of_isIdentChar hd)) _
  refine ⟨hhalts, ?_⟩
  rw [show trimStart (d :: c ++ t) = d :: c ++ t from hhalts.dropWhile_eq_self]
  intro he
  obtain rfl := Option.some.inj he
  exact absurd hd (by decide)

/-- A text that starts with a character of a name has no blanks at its front. -/
theorem no_blanks {g v w : List Char} {d : Char} (hg : ∀ b ∈ g, isBlank b = true) (hd : isNameChar d = true)
    (h : g ++ v = d :: w) : g = [] ∧ v = d :: w := by
  cases g with
  | nil => exact ⟨rfl, h⟩
  | cons b g =>
    obtain rfl := (List.cons.inj h).1
    simp [isBlank_of_isNameChar hd] at hg

section
variable {g g' c t : List Char} (hg : ∀ b ∈ g, isBlank b = true) (hg' : ∀ b ∈ g', isBlank b = true)
  (hne : c ≠ []) (hc : ∀ d ∈ c, isIdentChar d = true)
include hg hg' hne hc

/-- A name that reaches the dot before a column has no second dot behind it. -/
theorem no_dot_behind (ht : Halts isNameChar t) (hdot : (trimStart t).head? ≠ some '.') {u s : List Char}
    (hu : u ≠ []) (hchars : ∀ d ∈ u, isNameChar d = true) (h : g ++ '.' :: (g' ++ (c ++ t)) = u ++ s) :
    (trimStart s).head? ≠ some '.' := by
  obtain ⟨d, u, rfl⟩ := List.exists_cons_of_ne_nil hu
  rw [List.forall_mem_cons] at hchars
  obtain ⟨rfl, h⟩ := no_blanks hg hchars.1 h
  have h := (List.cons.inj h).2
  cases u with
  | nil =>
    obtain rfl : s = g' ++ (c ++ t) := h.symm
    obtain ⟨hhalts, hnot⟩ := trimStart_ident hne hc t
    rwa [trimStart_append hg' hhalts, ← show trimStart (c ++ t) = c ++ t from hhalts.dropWhile_eq_self]
  | cons e u =>
    obtain ⟨rfl, h⟩ := no_blanks hg' (hchars.2 e (by simp)) h
    -- it ends within the column, since the text behind goes on with no name
    rcases List.append_eq_append_iff.mp (show c ++ t = e :: u ++ s from h) with ⟨a, hu, rfl⟩ | ⟨b, rfl, rfl⟩
    · cases a with
      | nil => exact hdot
      | cons f a =>
        have hf := hchars.2 f (by simp [hu])
        simp [ht f rfl] at hf
    · cases b with
      | nil => exact hdot
      | cons f b => exact (trimStart_ident (by simp) (fun d hd => hc d (List.mem_append_right _ hd)) t).2

/-- Behind the name of a table there is a dot and a column, and there is none behind a longer name. -/
theorem dotColumn_of_column (ht : Halts isNameChar t) (hdot : (trimStart t).head? ≠ some '.') {x : Word}
    {ws : List Word} (hx : words (g ++ '.' :: (g' ++ (c ++ t))) = x :: ws) :
    dotColumn x ws = true ∧
      ∀ u r, x = u ++ r → u ≠ [] → (∀ d ∈ u, isNameChar d = true) → dotColumn r ws = false := by
  constructor
  · have hcolumn : trimStart (g' ++ (c ++ t)) = c ++ t := trimStart_append hg' (trimStart_ident hne hc t).1
    obtain ⟨d, c, rfl⟩ := List.exists_cons_of_ne_nil hne
    refine dotColumn_eq_true hx (trimStart_append hg (halts_cons (by decide) _)) ⟨d, ?_, hc d (by simp)⟩
    rw [hcolumn]
    rfl
  · rintro u r rfl hu hchars
    obtain ⟨s, hs, hw⟩ := exists_of_words hx
    exact dotColumn_eq_false hw (no_dot_behind hg hg' hne hc ht hdot hu hchars hs)

end

end MigrationLint.Sql
