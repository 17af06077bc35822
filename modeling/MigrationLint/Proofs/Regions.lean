import Mathlib.Data.List.TakeWhile
import MigrationLint.Sql.Region

/-!
# Openers and closers of regions

A region other than plain text stands between an opener and a closer. Its content is written as it is,
except that quotes are doubled in a literal and in a quoted name. Stripping the three parts is independent
of what stands around them (`strip_opener`, `strip_content`), and in plain text a character stays where no
opener starts (`strip_plain`).
-/

namespace MigrationLint.Sql

/-- A tag `$name$`, as a body opens and closes with. -/
def IsTag (tag : List Char) : Prop :=
  ∃ name : List Char, (∀ c ∈ name, isTagChar c = true) ∧ tag = '$' :: name ++ ['$']

def double (q : Char) (s : List Char) : List Char := s.flatMap fun c => if c = q then [q, q] else [c]

/-- The mark `m`, set behind the text, occurs there and nowhere before. -/
def FirstAt (m s : List Char) : Prop := ∀ k < s.length, ¬ m <+: (s ++ m).drop k

namespace Region

/-- The regions that an opener opens: all but plain text, a body only with a proper tag. -/
def Marked : Region → Prop
  | plain => False
  | body tag => IsTag tag
  | _ => True

def opener : Region → List Char
  | plain => []
  | line => ['-', '-']
  | block => ['/', '*']
  | literal => ['\x27']
  | quoted => ['\x22']
  | body tag => tag

def closer : Region → List Char
  | plain => []
  | line => ['\n']
  | block => ['*', '/']
  | literal => ['\x27']
  | quoted => ['\x22']
  | body tag => tag

def encode : Region → List Char → List Char
  | literal, s => double '\x27' s
  | quoted, s => double '\x22' s
  | _, s => s

/-! ## What stripping leaves of an opener, a content and a closer -/

def openOut : Region → List Char
  | body _ => [' ']
  | _ => []

def keep : Region → List Char → List Char
  | plain, s => s
  | quoted, s => s
  | _, _ => []

def closeOut : Region → List Char
  | line => ['\n']
  | literal => [' ']
  | body _ => [' ']
  | _ => []

/-! ## Legal contents -/

/-- The contents that a region may have: in plain text no opener occurs, in a comment no closer, and in a
body its tag is first found at the end. -/
def Holds : Region → List Char → Prop
  | plain, s => s ≠ [] ∧ ∀ r : Region, r.Marked → ¬ r.opener <:+: s
  | line, s => '\n' ∉ s
  | block, s => ¬ ['*', '/'] <:+: s
  | literal, _ => True
  | quoted, _ => True
  | body tag, s => IsTag tag ∧ FirstAt tag s

/-- The contents of a region that is never closed. -/
def HoldsOpen : Region → List Char → Prop
  | plain, _ => False
  | line, s => '\n' ∉ s
  | block, s => ¬ ['*', '/'] <:+: s
  | literal, _ => True
  | quoted, _ => True
  | body tag, s => IsTag tag ∧ ¬ tag <:+: s

/-- The quote that is doubled in a region. -/
def quote? : Region → Option Char
  | literal => some '\x27'
  | quoted => some '\x22'
  | _ => none

end Region

/-! ## Tags -/

theorem takeWhile_tag {name : List Char} (h : ∀ c ∈ name, isTagChar c = true) (s : List Char) :
    (name ++ '$' :: s).takeWhile isTagChar = name := by
  rw [List.takeWhile_append_of_pos h]
  simp [isTagChar]

theorem dropWhile_tag {name : List Char} (h : ∀ c ∈ name, isTagChar c = true) (s : List Char) :
    (name ++ '$' :: s).dropWhile isTagChar = '$' :: s := by
  rw [List.dropWhile_append_of_pos h]
  simp [isTagChar]

theorem tagAt_append {tag : List Char} (h : IsTag tag) (s : List Char) : tagAt (tag ++ s) = some tag := by
  obtain ⟨name, hn, rfl⟩ := h
  simp [tagAt, takeWhile_tag hn, dropWhile_tag hn]

theorem isTag_of_tagAt {s tag : List Char} (h : tagAt s = some tag) : IsTag tag ∧ tag <+: s := by
  cases s with
  | nil => cases h
  | cons c s =>
    simp only [tagAt] at h
    split at h
    · rename_i hc
      obtain ⟨rfl, hd⟩ := hc
      cases h
      obtain ⟨u, hu⟩ := List.head?_eq_some_iff.mp hd
      refine ⟨⟨s.takeWhile isTagChar, fun c hc => ?_, rfl⟩, u, ?_⟩
      · simpa using List.mem_takeWhile_imp hc
      · have := List.takeWhile_append_dropWhile (p := isTagChar) (l := s)
        rw [hu] at this
        simp [this]
    · cases h

theorem IsTag.cons {tag : List Char} (h : IsTag tag) : ∃ s, tag = '$' :: s := by
  obtain ⟨name, _, rfl⟩ := h
  exact ⟨_, rfl⟩

/-! ## Reading plain text -/

theorem read_opener {r : Region} (hr : r.Marked) {c : Char} {s : List Char} (h : r.opener <+: c :: s) :
    Region.plain.read c s = ⟨r.openOut, r, r.opener.length - 1⟩ := by
  cases r with
  | plain => cases hr
  | body tag =>
    obtain ⟨u, hu⟩ := h
    obtain ⟨t, rfl⟩ := hr.cons
    have hc : '$' = c := (List.cons.inj hu).1
    subst hc
    have ht := tagAt_append hr u
    rw [Region.opener] at hu
    rw [hu] at ht
    simp [Region.read, ht, Region.openOut, Region.opener]
  | _ =>
    obtain ⟨u, hu⟩ := h
    cases hu
    simp [Region.read, Region.openOut, Region.opener]

theorem read_plain {c : Char} {s : List Char} (h : ∀ r : Region, r.Marked → ¬ r.opener <+: c :: s) :
    Region.plain.read c s = ⟨[c], .plain, 0⟩ := by
  have two : ∀ (r : Region) (a b : Char), r.Marked → r.opener = [a, b] → ¬ (c = a ∧ s.head? = some b) := by
    intro r a b hr ho hx
    obtain ⟨rfl, hs⟩ := hx
    obtain ⟨u, rfl⟩ := List.head?_eq_some_iff.mp hs
    exact h r hr ⟨u, by simp [ho]⟩
  have one : ∀ (r : Region) (a : Char), r.Marked → r.opener = [a] → c ≠ a := by
    intro r a hr ho e
    subst e
    exact h r hr ⟨s, by simp [ho]⟩
  have tag : tagAt (c :: s) = none := by
    cases ht : tagAt (c :: s) with
    | none => rfl
    | some tag => exact absurd (isTag_of_tagAt ht).2 (h (.body tag) (isTag_of_tagAt ht).1)
  simp [Region.read, two .line _ _ trivial rfl, two .block _ _ trivial rfl, one .literal _ trivial rfl,
    one .quoted _ trivial rfl, tag]

theorem Region.Marked.opener_eq {r : Region} (hr : r.Marked) : ∃ c m, r.opener = c :: m := by
  cases r with
  | plain => cases hr
  | body tag => obtain ⟨m, rfl⟩ := IsTag.cons hr; exact ⟨_, _, rfl⟩
  | _ => exact ⟨_, _, rfl⟩

theorem opener_unique {r r' : Region} (hr : r.Marked) (hr' : r'.Marked) {s : List Char}
    (h : r.opener <+: s) (h' : r'.opener <+: s) : r = r' := by
  cases s with
  | nil =>
    obtain ⟨c, m, ho⟩ := hr.opener_eq
    rw [ho] at h
    exact absurd (List.prefix_nil.mp h) (List.cons_ne_nil _ _)
  | cons c s =>
    have := (read_opener hr h).symm.trans (read_opener hr' h')
    exact (Reading.mk.inj this).2.1

theorem stripFrom_skip (r : Region) (m s : List Char) : stripFrom r m.length (m ++ s) = stripFrom r 0 s := by
  induction m with
  | nil => rfl
  | cons c m ih => simpa [stripFrom] using ih

theorem strip_opener {r : Region} (hr : r.Marked) (s : List Char) :
    stripFrom .plain 0 (r.opener ++ s) = r.openOut ++ stripFrom r 0 s := by
  obtain ⟨c, m, ho⟩ := hr.opener_eq
  have h := read_opener hr (c := c) (s := m ++ s) (by rw [ho]; exact ⟨s, rfl⟩)
  rw [ho] at h ⊢
  rw [List.cons_append, stripFrom, h]
  simp only [List.length_cons, Nat.add_sub_cancel]
  rw [stripFrom_skip]

theorem strip_cons {c : Char} {s : List Char} (h : ∀ r : Region, r.Marked → ¬ r.opener <+: c :: s) :
    stripFrom .plain 0 (c :: s) = c :: stripFrom .plain 0 s := by
  rw [stripFrom, read_plain h]
  rfl

theorem strip_plain {s t : List Char}
    (h : ∀ k < s.length, ∀ r : Region, r.Marked → ¬ r.opener <+: (s ++ t).drop k) :
    stripFrom .plain 0 (s ++ t) = s ++ stripFrom .plain 0 t := by
  induction s with
  | nil => rfl
  | cons c s ih =>
    have h0 : ∀ r : Region, r.Marked → ¬ r.opener <+: c :: (s ++ t) := h 0 (by simp)
    rw [List.cons_append, strip_cons h0, ih fun k hk => h (k + 1) (by simpa using hk), List.cons_append]

/-! ## Comments and bodies -/

/-- The regions of which nothing but the closer is read. -/
def Region.Raw : Region → Prop
  | .line => True
  | .block => True
  | .body tag => IsTag tag
  | _ => False

theorem firstAt_cons {m : List Char} {c : Char} {s : List Char} :
    FirstAt m (c :: s) ↔ ¬ m <+: c :: s ++ m ∧ FirstAt m s := by
  constructor
  · intro h
    exact ⟨h 0 (by simp), fun k hk => h (k + 1) (by simpa using hk)⟩
  · intro hx k hk
    obtain ⟨h0, h⟩ := hx
    cases k with
    | zero => exact h0
    | succ k => exact h k (by simpa using hk)

theorem firstAt_newline {s : List Char} : FirstAt ['\n'] s ↔ '\n' ∉ s := by
  induction s with
  | nil => simp [FirstAt]
  | cons c s ih => rw [firstAt_cons, ih]; simp [eq_comm]

theorem firstAt_star {s : List Char} : FirstAt ['*', '/'] s ↔ ¬ ['*', '/'] <:+: s := by
  induction s with
  | nil => simp [FirstAt]
  | cons c s ih =>
    rw [firstAt_cons, ih, List.infix_cons_iff, not_or]
    cases s <;> simp

/-- A mark that stands behind `s` and starts inside it shows in `s` and the mark alone. -/
theorem prefix_drop_append {m s t : List Char} {k : Nat} (hk : k ≤ s.length)
    (h : m <+: (s ++ m ++ t).drop k) : m <+: (s ++ m).drop k := by
  rw [List.drop_append_of_le_length (by simp; omega)] at h
  exact List.prefix_of_prefix_length_le h (List.prefix_append _ _) (by simp; omega)

namespace Region

theorem Raw.holds_iff {r : Region} (hr : r.Raw) {s : List Char} : r.Holds s ↔ FirstAt r.closer s := by
  cases r with
  | line => exact firstAt_newline.symm
  | block => exact firstAt_star.symm
  | body tag => exact and_iff_right hr
  | _ => cases hr

theorem Raw.holdsOpen_iff {r : Region} (hr : r.Raw) {s : List Char} : r.HoldsOpen s ↔ ¬ r.closer <:+: s := by
  cases r with
  | line =>
    rw [HoldsOpen, closer, List.mem_iff_append]
    simp [List.IsInfix, eq_comm]
  | block => rfl
  | body tag => exact and_iff_right hr
  | _ => cases hr

theorem Raw.closer_eq {r : Region} (hr : r.Raw) : ∃ c m, r.closer = c :: m := by
  cases r with
  | line => exact ⟨_, _, rfl⟩
  | block => exact ⟨_, _, rfl⟩
  | body tag => obtain ⟨m, rfl⟩ := IsTag.cons hr; exact ⟨_, _, rfl⟩
  | _ => cases hr

theorem Raw.read_eq {r : Region} (hr : r.Raw) (c : Char) (s : List Char) :
    r.read c s = if r.closer <+: c :: s then ⟨r.closeOut, .plain, r.closer.length - 1⟩ else ⟨[], r, 0⟩ := by
  cases r with
  | line => simp [read, closer, closeOut, eq_comm]
  | block => cases s <;> simp [read, closer, closeOut, eq_comm]
  | body tag => by_cases h : tag <+: c :: s <;> simp [read, closer, closeOut, h]
  | _ => cases hr

theorem Raw.encode_eq {r : Region} (hr : r.Raw) (s : List Char) : r.encode s = s := by
  cases r <;> first | rfl | cases hr

theorem Raw.keep_eq {r : Region} (hr : r.Raw) (s : List Char) : r.keep s = [] := by
  cases r <;> first | rfl | cases hr

end Region

theorem strip_raw {r : Region} (hr : r.Raw) {s : List Char} (h : FirstAt r.closer s) (t : List Char) :
    stripFrom r 0 (s ++ r.closer ++ t) = r.closeOut ++ stripFrom .plain 0 t := by
  induction s with
  | nil =>
    obtain ⟨c, m, hc⟩ := hr.closer_eq
    have h := hr.read_eq c (m ++ t)
    rw [if_pos (by rw [hc]; exact ⟨t, rfl⟩)] at h
    rw [hc] at h ⊢
    rw [List.nil_append, List.cons_append, stripFrom, h]
    simp only [List.length_cons, Nat.add_sub_cancel]
    rw [stripFrom_skip]
  | cons c s ih =>
    obtain ⟨h0, hs⟩ := firstAt_cons.mp h
    have hn : ¬ r.closer <+: c :: (s ++ r.closer ++ t) := fun hp =>
      h0 (prefix_drop_append (s := c :: s) (k := 0) (Nat.zero_le _) hp)
    have h := hr.read_eq c (s ++ r.closer ++ t)
    rw [if_neg hn] at h
    rw [List.cons_append, List.cons_append, stripFrom, h]
    exact ih hs

theorem strip_raw_open {r : Region} (hr : r.Raw) {s : List Char} (h : ¬ r.closer <:+: s) :
    stripFrom r 0 s = [] := by
  induction s with
  | nil => rfl
  | cons c s ih =>
    rw [List.infix_cons_iff, not_or] at h
    have hc := hr.read_eq c s
    rw [if_neg h.1] at hc
    rw [stripFrom, hc]
    exact ih h.2

/-! ## Literals and quoted names -/

theorem double_cons (q c : Char) (s : List Char) :
    double q (c :: s) = if c = q then q :: q :: double q s else c :: double q s := by
  by_cases h : c = q <;> simp [double, h]

section
variable {r : Region} {q : Char} (hq : r.quote? = some q)
include hq

theorem read_quote (c : Char) (s : List Char) :
    r.read c s =
      if c = q then if s.head? = some q then ⟨r.keep [q], r, 1⟩ else ⟨r.closeOut, .plain, 0⟩
      else ⟨r.keep [c], r, 0⟩ := by
  cases r <;> cases hq <;> rfl

theorem closer_quote : r.closer = [q] := by
  cases r <;> cases hq <;> rfl

theorem encode_quote (s : List Char) : r.encode s = double q s := by
  cases r <;> cases hq <;> rfl

theorem keep_quote_cons (c : Char) (s : List Char) : r.keep [c] ++ r.keep s = r.keep (c :: s) := by
  cases r <;> cases hq <;> rfl

theorem strip_double (s t : List Char) :
    stripFrom r 0 (double q s ++ t) = r.keep s ++ stripFrom r 0 t := by
  induction s with
  | nil => cases r <;> cases hq <;> rfl
  | cons c s ih =>
    rw [double_cons, ← keep_quote_cons hq]
    by_cases hc : c = q
    · subst hc
      have h := read_quote hq c (c :: (double c s ++ t))
      rw [if_pos rfl, List.head?_cons, if_pos rfl] at h
      rw [if_pos rfl, List.cons_append, List.cons_append, stripFrom, h, List.append_assoc, ← ih]
      rfl
    · rw [if_neg hc, List.cons_append, stripFrom, read_quote hq, if_neg hc]
      simp only [List.append_assoc, ← ih]

theorem strip_quote {t : List Char} (ht : t.head? ≠ some q) :
    stripFrom r 0 (q :: t) = r.closeOut ++ stripFrom .plain 0 t := by
  rw [stripFrom, read_quote hq, if_pos rfl, if_neg ht]

end

/-! ## Contents -/

theorem Region.Marked.raw_or_quote {r : Region} (hr : r.Marked) : r.Raw ∨ ∃ q, r.quote? = some q := by
  cases r with
  | plain => cases hr
  | literal => exact .inr ⟨_, rfl⟩
  | quoted => exact .inr ⟨_, rfl⟩
  | line => exact .inl trivial
  | block => exact .inl trivial
  | body tag => exact .inl hr

theorem Region.HoldsOpen.marked {r : Region} {s : List Char} (h : r.HoldsOpen s) : r.Marked := by
  cases r with
  | plain => exact h
  | body tag => exact h.1
  | _ => trivial

theorem Region.Raw.quote?_eq {r : Region} (hr : r.Raw) : r.quote? = none := by
  cases r <;> first | rfl | cases hr

theorem holds_of_quote {r : Region} {q : Char} (hq : r.quote? = some q) (s : List Char) :
    r.Holds s ∧ r.HoldsOpen s := by
  cases r <;> cases hq <;> exact ⟨trivial, trivial⟩

/-- What may follow a closed region: the quote that closes it is not doubled. -/
def Region.EndsBefore (r : Region) (t : List Char) : Prop := ∀ q ∈ r.quote?, t.head? ≠ some q

theorem strip_content {r : Region} (hr : r.Marked) {s t : List Char} (h : r.Holds s) (ht : r.EndsBefore t) :
    stripFrom r 0 (r.encode s ++ r.closer ++ t) = r.keep s ++ r.closeOut ++ stripFrom .plain 0 t := by
  rcases hr.raw_or_quote with hr | ⟨q, hq⟩
  · rw [hr.encode_eq, hr.keep_eq, strip_raw hr (hr.holds_iff.mp h)]
    rfl
  · rw [encode_quote hq, closer_quote hq, List.append_assoc, strip_double hq, List.singleton_append,
      strip_quote hq (ht q hq), List.append_assoc]

theorem strip_open {r : Region} {s : List Char} (h : r.HoldsOpen s) : stripFrom r 0 (r.encode s) = r.keep s := by
  rcases h.marked.raw_or_quote with hr | ⟨q, hq⟩
  · rw [hr.encode_eq, hr.keep_eq, strip_raw_open hr (hr.holdsOpen_iff.mp h)]
  · have := strip_double hq s []
    rwa [stripFrom, List.append_nil, List.append_nil, ← encode_quote hq] at this

/-! ## Every text has a content -/

theorem exists_raw {r : Region} (hr : r.Raw) (s : List Char) :
    (∃ c t, FirstAt r.closer c ∧ s = c ++ r.closer ++ t) ∨ ¬ r.closer <:+: s := by
  induction s with
  | nil =>
    obtain ⟨c, m, hc⟩ := hr.closer_eq
    exact .inr (by simp [hc])
  | cons x s ih =>
    by_cases hp : r.closer <+: x :: s
    · obtain ⟨t, ht⟩ := hp
      exact .inl ⟨[], t, fun k hk => absurd hk (Nat.not_lt_zero k), ht.symm⟩
    rcases ih with ⟨c, t, hc, rfl⟩ | h
    · refine .inl ⟨x :: c, t, firstAt_cons.mpr ⟨fun h => hp ?_, hc⟩, rfl⟩
      exact h.trans (List.prefix_append (x :: c ++ r.closer) t)
    · exact .inr (by rw [List.infix_cons_iff, not_or]; exact ⟨hp, h⟩)

theorem exists_double (q : Char) : ∀ s : List Char,
    (∃ c t, t.head? ≠ some q ∧ s = double q c ++ q :: t) ∨ ∃ c, s = double q c
  | [] => .inr ⟨[], rfl⟩
  | x :: s => by
    by_cases hx : x = q
    · subst hx
      cases s with
      | nil => exact .inl ⟨[], [], by simp, rfl⟩
      | cons y s =>
        by_cases hy : y = x
        · subst hy
          rcases exists_double y s with ⟨c, t, ht, rfl⟩ | ⟨c, rfl⟩
          · exact .inl ⟨y :: c, t, ht, by simp [double_cons]⟩
          · exact .inr ⟨y :: c, by simp [double_cons]⟩
        · exact .inl ⟨[], y :: s, by simpa using hy, rfl⟩
    · rcases exists_double q s with ⟨c, t, ht, rfl⟩ | ⟨c, rfl⟩
      · exact .inl ⟨x :: c, t, ht, by simp [double_cons, hx]⟩
      · exact .inr ⟨x :: c, by simp [double_cons, hx]⟩

theorem exists_content {r : Region} (hr : r.Marked) (s : List Char) :
    (∃ c t, r.Holds c ∧ r.EndsBefore t ∧ s = r.encode c ++ r.closer ++ t) ∨
      ∃ c, r.HoldsOpen c ∧ s = r.encode c := by
  rcases hr.raw_or_quote with hr | ⟨q, hq⟩
  · rcases exists_raw hr s with ⟨c, t, hc, rfl⟩ | h
    · refine .inl ⟨c, t, hr.holds_iff.mpr hc, ?_, by rw [hr.encode_eq]⟩
      intro q hq
      rw [hr.quote?_eq] at hq
      cases hq
    · exact .inr ⟨s, hr.holdsOpen_iff.mpr h, (hr.encode_eq s).symm⟩
  · rcases exists_double q s with ⟨c, t, ht, rfl⟩ | ⟨c, rfl⟩
    · refine .inl ⟨c, t, (holds_of_quote hq c).1, ?_, ?_⟩
      · intro q' hq'
        rw [hq] at hq'
        cases hq'
        exact ht
      · rw [encode_quote hq, closer_quote hq, List.append_assoc, List.singleton_append]
    · exact .inr ⟨c, (holds_of_quote hq c).2, (encode_quote hq c).symm⟩

/-! ## No text has two contents -/

theorem firstAt_unique {m c c' t t' : List Char} (hc : FirstAt m c) (hc' : FirstAt m c')
    (h : c ++ m ++ t = c' ++ m ++ t') : c = c' ∧ t = t' := by
  have le : ∀ {c c' t t' : List Char}, FirstAt m c' → c ++ m ++ t = c' ++ m ++ t' → c'.length ≤ c.length := by
    intro c c' t t' hc' h
    rcases Nat.lt_or_ge c.length c'.length with hl | hl
    · refine absurd (prefix_drop_append (t := t') hl.le ?_) (hc' c.length hl)
      rw [← h, List.append_assoc, List.drop_left]
      exact List.prefix_append m t
    · exact hl
  have hl : c.length = c'.length := Nat.le_antisymm (le hc h.symm) (le hc' h)
  obtain ⟨rfl, h⟩ := List.append_inj (by simpa using h) hl
  exact ⟨rfl, List.append_cancel_left h⟩

/-- The content at the front of a text with doubled quotes, and what stands behind the quote that closes it. -/
def undouble (q : Char) : List Char → List Char × Option (List Char)
  | [] => ([], none)
  | c :: s =>
    if c = q then
      match s with
      | d :: s => if d = q then let x := undouble q s; (q :: x.1, x.2) else ([], some (d :: s))
      | [] => ([], some [])
    else let x := undouble q s; (c :: x.1, x.2)

theorem undouble_cons {q c : Char} (h : c ≠ q) (s : List Char) :
    undouble q (c :: s) = (c :: (undouble q s).1, (undouble q s).2) := by
  cases s <;> simp [undouble, h]

theorem undouble_double (q : Char) (s t : List Char) :
    undouble q (double q s ++ t) = (s ++ (undouble q t).1, (undouble q t).2) := by
  induction s with
  | nil => rfl
  | cons c s ih =>
    rw [double_cons]
    by_cases hc : c = q
    · simp [hc, undouble, ih]
    · simp [hc, undouble_cons hc, ih]

theorem undouble_all (q : Char) (s : List Char) : undouble q (double q s) = (s, none) := by
  simpa [undouble] using undouble_double q s []

theorem undouble_quote {q : Char} {t : List Char} (ht : t.head? ≠ some q) : undouble q (q :: t) = ([], some t) := by
  cases t with
  | nil => simp [undouble]
  | cons d t =>
    have : d ≠ q := by simpa using ht
    simp [undouble, this]

theorem content_unique {r : Region} (hr : r.Marked) {c c' t t' : List Char} (hc : r.Holds c) (hc' : r.Holds c')
    (ht : r.EndsBefore t) (ht' : r.EndsBefore t')
    (h : r.encode c ++ r.closer ++ t = r.encode c' ++ r.closer ++ t') : c = c' ∧ t = t' := by
  rcases hr.raw_or_quote with hr | ⟨q, hq⟩
  · rw [hr.encode_eq, hr.encode_eq] at h
    exact firstAt_unique (hr.holds_iff.mp hc) (hr.holds_iff.mp hc') h
  · rw [encode_quote hq, encode_quote hq, closer_quote hq] at h
    have := congrArg (undouble q) h
    simpa [undouble_double, undouble_quote (ht q hq), undouble_quote (ht' q hq)] using this

theorem content_not_open {r : Region} {c c' t : List Char} (hc' : r.HoldsOpen c') (ht : r.EndsBefore t) :
    r.encode c ++ r.closer ++ t ≠ r.encode c' := by
  intro h
  rcases hc'.marked.raw_or_quote with hr | ⟨q, hq⟩
  · rw [hr.encode_eq, hr.encode_eq] at h
    exact hr.holdsOpen_iff.mp hc' ⟨c, t, h⟩
  · rw [encode_quote hq, encode_quote hq, closer_quote hq] at h
    have := congrArg (undouble q) h
    simp [undouble_double, undouble_quote (ht q hq), undouble_all] at this

theorem openContent_unique {r : Region} (hr : r.Marked) {c c' : List Char} (h : r.encode c = r.encode c') :
    c = c' := by
  rcases hr.raw_or_quote with hr | ⟨q, hq⟩
  · rwa [hr.encode_eq, hr.encode_eq] at h
  · rw [encode_quote hq, encode_quote hq] at h
    have := congrArg (undouble q) h
    simpa [undouble_all] using this

end MigrationLint.Sql
