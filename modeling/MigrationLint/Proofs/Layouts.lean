import Mathlib.Data.List.Chain
import MigrationLint.Proofs.Regions
import MigrationLint.Sql.Normal

/-!
# Layouts of a text

A layout cuts a text into segments, one a region, of which only the last may be left open. Every text has
exactly one well-formed layout, and its normal text is the lowercase of what the segments leave
(`normalize_layout`).
-/

namespace MigrationLint.Sql

open Text

structure Segment where
  region : Region
  content : List Char
  closed : Bool
  deriving DecidableEq, Repr

namespace Segment

def text (x : Segment) : List Char :=
  x.region.opener ++ x.region.encode x.content ++ if x.closed then x.region.closer else []

def out (x : Segment) : List Char :=
  x.region.openOut ++ x.region.keep x.content ++ if x.closed then x.region.closeOut else []

def Legal (x : Segment) : Prop :=
  if x.closed then x.region.Holds x.content else x.region.HoldsOpen x.content

/-- `y` may stand right behind `x`: neither do the two read as one segment, nor does the end of `x` make
an opener with the start of `y`. -/
def Precedes (x y : Segment) : Prop :=
  x.closed = true ∧
    match x.region, y.region with
    | .plain, .plain => False
    | .literal, .literal => False
    | .quoted, .quoted => False
    | .plain, .line => x.content.getLast? ≠ some '-'
    | .plain, .body _ =>
      ∀ name : List Char, (∀ c ∈ name, isTagChar c = true) → ¬ '$' :: name <:+ x.content
    | _, _ => True

end Segment

structure WellFormed (l : List Segment) : Prop where
  legal : ∀ x ∈ l, x.Legal
  parted : l.IsChain Segment.Precedes

def textOf (l : List Segment) : List Char := l.flatMap Segment.text

def outOf (l : List Segment) : List Char := l.flatMap Segment.out

/-! ## Segments one by one -/

theorem wellFormed_nil : WellFormed [] := ⟨by simp, .nil⟩

theorem wellFormed_cons {x : Segment} {l : List Segment} :
    WellFormed (x :: l) ↔ x.Legal ∧ (∀ y ∈ l.head?, x.Precedes y) ∧ WellFormed l := by
  constructor
  · intro hx
    obtain ⟨hl, hp⟩ := hx
    rw [List.forall_mem_cons] at hl
    rw [List.isChain_cons] at hp
    exact ⟨hl.1, hp.1, hl.2, hp.2⟩
  · intro hx
    obtain ⟨hx, hp, hl⟩ := hx
    exact ⟨List.forall_mem_cons.mpr ⟨hx, hl.legal⟩, List.isChain_cons.mpr ⟨hp, hl.parted⟩⟩

theorem textOf_cons (x : Segment) (l : List Segment) : textOf (x :: l) = x.text ++ textOf l := by
  simp [textOf]

theorem outOf_cons (x : Segment) (l : List Segment) : outOf (x :: l) = x.out ++ outOf l := by
  simp [outOf]

theorem Region.Holds.plain_or_marked {r : Region} {s : List Char} (h : r.Holds s) : r = .plain ∨ r.Marked := by
  cases r with
  | plain => exact .inl rfl
  | body tag => exact .inr h.1
  | _ => exact .inr trivial

theorem Segment.Legal.plain_or_marked {x : Segment} (h : x.Legal) : x.region = .plain ∨ x.region.Marked := by
  unfold Segment.Legal at h
  split at h
  · exact h.plain_or_marked
  · exact .inr h.marked

theorem Segment.text_plain {x : Segment} (hx : x.region = .plain) : x.text = x.content := by
  cases hc : x.closed <;> simp [Segment.text, hx, hc, Region.opener, Region.encode, Region.closer]

theorem Segment.Legal.plain {x : Segment} (h : x.Legal) (hx : x.region = .plain) :
    x.closed = true ∧ Region.plain.Holds x.content := by
  unfold Segment.Legal at h
  rw [hx] at h
  split at h
  · exact ⟨‹_›, h⟩
  · cases h

theorem Segment.opener_prefix (x : Segment) (t : List Char) : x.region.opener <+: x.text ++ t :=
  ⟨_, by simp only [Segment.text, List.append_assoc]; rfl⟩

/-! ## The start of a layout -/

theorem opener_head {r : Region} (hr : r.Marked) {c : Char} {m : List Char} (h : r.opener = c :: m) :
    c = '-' ∧ r = .line ∨ c = '/' ∨ c = '\x27' ∨ c = '\x22' ∨ c = '$' ∧ ∃ tag, r = .body tag := by
  cases r with
  | plain => cases hr
  | body tag =>
    obtain ⟨s, rfl⟩ := IsTag.cons hr
    cases h
    simp
  | _ => cases h; simp

theorem opener_of_precedes {x : Segment} {l : List Segment} (h : WellFormed (x :: l)) (hx : x.region = .plain)
    {c : Char} {t : List Char} (ht : textOf l = c :: t) :
    ∃ y, x.Precedes y ∧ y.region.Marked ∧ ∃ m, y.region.opener = c :: m := by
  obtain ⟨_, hp, hl⟩ := wellFormed_cons.mp h
  cases l with
  | nil => cases ht
  | cons y l =>
    have hxy := hp y rfl
    rcases (hl.legal y (by simp)).plain_or_marked with hy | hy
    · simp [Segment.Precedes, hx, hy] at hxy
    · obtain ⟨d, m, ho⟩ := hy.opener_eq
      obtain ⟨u, hu⟩ := y.opener_prefix (textOf l)
      rw [← textOf_cons, ht, ho] at hu
      obtain rfl : d = c := (List.cons.inj hu).1
      exact ⟨y, hxy, hy, m, ho⟩

theorem marked_of_quote {r : Region} {q : Char} (hq : r.quote? = some q) : r.Marked ∧ r.opener = [q] := by
  cases r <;> cases hq <;> exact ⟨trivial, rfl⟩

theorem WellFormed.endsBefore {x : Segment} {l : List Segment} (h : WellFormed (x :: l)) :
    x.region.EndsBefore (textOf l) := by
  intro q hq ht
  obtain ⟨hr, ho⟩ := marked_of_quote hq
  obtain ⟨_, hp, hl⟩ := wellFormed_cons.mp h
  obtain ⟨t, ht⟩ := List.head?_eq_some_iff.mp ht
  have hpre : x.region.opener <+: textOf l := ⟨t, by rw [ht, ho]; rfl⟩
  cases l with
  | nil => cases ht
  | cons y l =>
    have hxy := hp y rfl
    rcases (hl.legal y (by simp)).plain_or_marked with hy | hy
    · -- plain text would start with the quote, which is an opener
      obtain ⟨_, hne, hno⟩ := (hl.legal y (by simp)).plain hy
      rw [textOf_cons, Segment.text_plain hy, ho] at hpre
      cases hc : y.content with
      | nil => exact hne hc
      | cons c s =>
        rw [hc, List.cons_append, List.cons_prefix_cons] at hpre
        refine hno x.region hr ?_
        rw [ho, hc, hpre.1]
        exact (List.prefix_append [c] s).isInfix
    · have hxy' : x.region = y.region := by
        refine opener_unique hr hy hpre ?_
        rw [textOf_cons]
        exact y.opener_prefix _
      cases hxr : x.region <;> rw [hxr] at hq hxy' <;> cases hq <;> simp [Segment.Precedes, hxr, ← hxy'] at hxy

/-- An opener that starts in a plain text and reaches beyond it starts with one of three marks. -/
theorem opener_across {r : Region} (hr : r.Marked) {u v : List Char} (h : r.opener = u ++ v) (hu : u ≠ [])
    (hv : v ≠ []) :
    u = ['-'] ∧ v = ['-'] ∨ v = ['*'] ∨
      ∃ name rest, (∀ c ∈ name ++ rest, isTagChar c = true) ∧ u = '$' :: name ∧ v = rest ++ ['$'] := by
  obtain ⟨c, u, rfl⟩ := List.exists_cons_of_ne_nil hu
  cases r with
  | plain => cases hr
  | body tag =>
    obtain ⟨name, hn, rfl⟩ := hr
    obtain ⟨rest, d, rfl⟩ := List.eq_nil_or_concat v |>.resolve_left hv
    rw [Region.opener, List.cons_append, List.cons_append] at h
    obtain ⟨hc, h'⟩ := List.cons.inj h
    rw [List.concat_eq_append, ← List.append_assoc] at h'
    obtain ⟨rfl, hd⟩ := List.append_inj' h' rfl
    subst hc
    cases hd
    exact .inr (.inr ⟨u, rest, hn, rfl, by simp⟩)
  | line =>
    simp only [Region.opener, List.cons_append, List.cons.injEq] at h
    obtain ⟨rfl, h⟩ := h
    rcases List.append_eq_singleton_iff.mp h.symm with ⟨rfl, rfl⟩ | ⟨_, rfl⟩
    · exact .inl ⟨rfl, rfl⟩
    · exact absurd rfl hv
  | block =>
    simp only [Region.opener, List.cons_append, List.cons.injEq] at h
    obtain ⟨_, h⟩ := h
    rcases List.append_eq_singleton_iff.mp h.symm with ⟨_, rfl⟩ | ⟨_, rfl⟩
    · exact .inr (.inl rfl)
    · exact absurd rfl hv
  | literal =>
    simp only [Region.opener, List.cons_append, List.cons.injEq] at h
    exact absurd (List.append_eq_nil_iff.mp h.2.symm).2 hv
  | quoted =>
    simp only [Region.opener, List.cons_append, List.cons.injEq] at h
    exact absurd (List.append_eq_nil_iff.mp h.2.symm).2 hv

theorem WellFormed.no_opener {x : Segment} {l : List Segment} (h : WellFormed (x :: l)) (hx : x.region = .plain) :
    ∀ k < x.content.length, ∀ r : Region, r.Marked → ¬ r.opener <+: (x.content ++ textOf l).drop k := by
  intro k hk r hr hp
  obtain ⟨_, _, hno⟩ := ((wellFormed_cons.mp h).1.plain hx)
  rw [List.drop_append_of_le_length hk.le] at hp
  have hu : x.content.drop k ≠ [] := by simpa using hk
  rcases Nat.le_total r.opener.length (x.content.drop k).length with hl | hl
  · have := List.prefix_of_prefix_length_le hp (List.prefix_append _ _) hl
    exact hno r hr (this.isInfix.trans (List.drop_suffix k _).isInfix)
  · -- the opener reaches into the text behind, which starts with an opener of its own
    obtain ⟨v, hv⟩ := List.prefix_of_prefix_length_le (List.prefix_append _ _) hp hl
    by_cases hv0 : v = []
    · rw [hv0, List.append_nil] at hv
      exact hno r hr (hv ▸ (List.drop_suffix k _).isInfix)
    rw [← hv, List.prefix_append_right_inj] at hp
    obtain ⟨c, v, rfl⟩ := List.exists_cons_of_ne_nil hv0
    obtain ⟨t, ht⟩ := hp
    obtain ⟨y, hxy, hy, m, ho⟩ := opener_of_precedes h hx ht.symm
    have hd := opener_head hy ho
    rcases opener_across hr hv.symm hu hv0 with ⟨hu, hc⟩ | hc | ⟨name, rest, hn, hu, hc⟩
    · cases hc
      obtain hy : y.region = .line := by simpa using hd
      have hs : ['-'] <:+ x.content := hu ▸ List.drop_suffix k _
      obtain ⟨s, hs⟩ := hs
      simp [Segment.Precedes, hx, hy, ← hs] at hxy
    · cases hc
      simp at hd
    · cases rest with
      | nil =>
        cases hc
        obtain ⟨tag, hy⟩ : ∃ tag, y.region = .body tag := by simpa using hd
        simp only [Segment.Precedes, hx, hy] at hxy
        exact hxy.2 name (by simpa using hn) (hu ▸ List.drop_suffix k _)
      | cons d rest =>
        obtain rfl : c = d := (List.cons.inj hc).1
        have hct : isTagChar c = true := hn c (by simp)
        rcases hd with ⟨rfl, _⟩ | rfl | rfl | rfl | ⟨rfl, _⟩ <;> simp [isTagChar] at hct

theorem WellFormed.last_of_open {x : Segment} {l : List Segment} (h : WellFormed (x :: l)) (hx : x.closed = false) :
    l = [] := by
  cases l with
  | nil => rfl
  | cons y l => simpa [hx] using ((wellFormed_cons.mp h).2.1 y rfl).1

/-! ## Stripping a layout -/

theorem strip_segment {x : Segment} {l : List Segment} (h : WellFormed (x :: l)) :
    stripFrom .plain 0 (x.text ++ textOf l) = x.out ++ stripFrom .plain 0 (textOf l) := by
  obtain ⟨hx, hp, hl⟩ := wellFormed_cons.mp h
  rcases hx.plain_or_marked with hr | hr
  · rw [Segment.text_plain hr, strip_plain (h.no_opener hr)]
    cases hc : x.closed <;> simp [Segment.out, hr, hc, Region.openOut, Region.keep, Region.closeOut]
  · cases hc : x.closed with
    | true =>
      have hh : x.region.Holds x.content := by simpa [Segment.Legal, hc] using hx
      simp only [Segment.text, Segment.out, hc, ite_true]
      rw [List.append_assoc, List.append_assoc, strip_opener hr, ← List.append_assoc (x.region.encode _),
        strip_content hr hh h.endsBefore]
      simp
    | false =>
      have hh : x.region.HoldsOpen x.content := by simpa [Segment.Legal, hc] using hx
      obtain rfl := h.last_of_open hc
      simp only [Segment.text, Segment.out, hc, textOf, List.flatMap_nil, List.append_nil]
      have h0 : stripFrom .plain 0 [] = [] := rfl
      simp only [Bool.false_eq_true, ite_false, List.append_nil, h0]
      rw [strip_opener hr, strip_open hh]

theorem strip_textOf {l : List Segment} (h : WellFormed l) : strip (textOf l) = outOf l := by
  induction l with
  | nil => rfl
  | cons x l ih =>
    rw [textOf_cons, outOf_cons, strip, strip_segment h]
    exact congrArg _ (ih (wellFormed_cons.mp h).2.2)

/-! ## Every text has a layout -/

/-- The plain text that a layout starts with, empty if it starts with an opener, and the rest of it. -/
theorem WellFormed.split {l : List Segment} (h : WellFormed l) :
    ∃ w l', textOf l = w ++ textOf l' ∧ WellFormed l' ∧ (∀ r : Region, r.Marked → ¬ r.opener <:+: w) ∧
      ∀ y ∈ l'.head?, y.region.Marked ∧ (w ≠ [] → Segment.Precedes ⟨.plain, w, true⟩ y) := by
  have nil : ∀ r : Region, r.Marked → ¬ r.opener <:+: [] := by
    intro r hr hi
    obtain ⟨c, m, ho⟩ := hr.opener_eq
    rw [List.infix_nil, ho] at hi
    cases hi
  cases l with
  | nil => exact ⟨[], [], rfl, h, nil, by simp⟩
  | cons x l =>
    obtain ⟨hx, hp, hl⟩ := wellFormed_cons.mp h
    rcases hx.plain_or_marked with hr | hr
    · obtain ⟨hc, _, hno⟩ := hx.plain hr
      refine ⟨x.content, l, by rw [textOf_cons, Segment.text_plain hr], hl, hno, fun y hy => ?_⟩
      have hxy := hp y hy
      have hx' : x = ⟨.plain, x.content, true⟩ := by rw [← hr, ← hc]
      rw [hx'] at hxy
      obtain ⟨l', rfl⟩ := List.head?_eq_some_iff.mp hy
      refine ⟨?_, fun _ => hxy⟩
      rcases (hl.legal y (by simp)).plain_or_marked with hy' | hy'
      · simp [Segment.Precedes, hy'] at hxy
      · exact hy'
    · refine ⟨[], x :: l, rfl, h, nil, fun y hy => ⟨?_, fun h => absurd rfl h⟩⟩
      cases hy
      exact hr

/-- A character that no opener starts with extends the plain text in front of a layout. -/
theorem WellFormed.plain_cons {c : Char} {w : List Char} {l : List Segment} (hl : WellFormed l)
    (hw : ∀ r : Region, r.Marked → ¬ r.opener <:+: w)
    (hp : ∀ y ∈ l.head?, y.region.Marked ∧ (w ≠ [] → Segment.Precedes ⟨.plain, w, true⟩ y))
    (hc : ∀ r : Region, r.Marked → ¬ r.opener <+: c :: (w ++ textOf l)) :
    WellFormed (⟨.plain, c :: w, true⟩ :: l) := by
  refine wellFormed_cons.mpr ⟨⟨List.cons_ne_nil _ _, fun r hr hi => ?_⟩, fun y hy => ?_, hl⟩
  · rcases List.infix_cons_iff.mp hi with hi | hi
    · exact hc r hr (hi.trans (List.prefix_append (c :: w) _))
    · exact hw r hr hi
  · obtain ⟨hyr, hwy⟩ := hp y hy
    obtain ⟨l', rfl⟩ := List.head?_eq_some_iff.mp hy
    obtain ⟨t, ht⟩ := y.opener_prefix (textOf l')
    rw [textOf_cons, ← ht] at hc
    obtain ⟨r, u, b⟩ := y
    -- the end of `c :: w` makes no opener with the one that the layout starts with
    cases r with
    | line =>
      refine ⟨rfl, fun h => ?_⟩
      cases w with
      | nil =>
        obtain rfl : c = '-' := by simpa using h
        exact hc .line trivial ⟨'-' :: t, by simp [Region.opener]⟩
      | cons d w => exact (hwy (List.cons_ne_nil _ _)).2 h
    | body tag =>
      refine ⟨rfl, fun name hn hs => ?_⟩
      rcases List.suffix_cons_iff.mp hs with he | hs
      · obtain ⟨rfl, rfl⟩ := List.cons.inj he
        obtain ⟨m, rfl⟩ := IsTag.cons hyr
        exact hc (.body ('$' :: name ++ ['$'])) ⟨name, hn, rfl⟩ ⟨m ++ t, by simp [Region.opener]⟩
      · have hw0 : w ≠ [] := by
          intro e
          subst e
          exact absurd (List.suffix_nil.mp hs) (List.cons_ne_nil _ _)
        exact (hwy hw0).2 name hn hs
    | plain => cases hyr
    | _ => exact ⟨rfl, trivial⟩

theorem exists_layout (s : List Char) : ∃ l, WellFormed l ∧ textOf l = s := by
  by_cases h : ∃ r : Region, r.Marked ∧ r.opener <+: s
  · obtain ⟨r, hr, u, rfl⟩ := h
    rcases exists_content hr u with ⟨c, t, hc, ht, rfl⟩ | ⟨c, hc, rfl⟩
    · obtain ⟨d, m, ho⟩ := hr.opener_eq
      have hlt : t.length < (r.opener ++ (r.encode c ++ r.closer ++ t)).length := by simp [ho]; omega
      obtain ⟨l, hl, rfl⟩ := exists_layout t
      refine ⟨⟨r, c, true⟩ :: l, wellFormed_cons.mpr ⟨hc, fun y hy => ⟨rfl, ?_⟩, hl⟩, ?_⟩
      · have same : ∀ q, r.quote? = some q → y.region = r → False := by
          intro q hq hyr
          obtain ⟨l', rfl⟩ := List.head?_eq_some_iff.mp hy
          obtain ⟨u, hu⟩ := y.opener_prefix (textOf l')
          rw [hyr, (marked_of_quote hq).2] at hu
          refine ht q hq ?_
          rw [textOf_cons, ← hu]
          rfl
        obtain ⟨r', _, _⟩ := y
        cases r with
        | plain => cases hr
        | literal => cases r' <;> first | trivial | exact same _ rfl rfl
        | quoted => cases r' <;> first | trivial | exact same _ rfl rfl
        | _ => trivial
      · simp [textOf_cons, Segment.text]
    · exact ⟨[⟨r, c, false⟩], wellFormed_cons.mpr ⟨hc, by simp, wellFormed_nil⟩, by simp [textOf, Segment.text]⟩
  · cases s with
    | nil => exact ⟨[], wellFormed_nil, rfl⟩
    | cons c s =>
      obtain ⟨l, hl, hs⟩ := exists_layout s
      obtain ⟨w, l', hw, hl', hno, hp⟩ := hl.split
      rw [hs] at hw
      refine ⟨_, hl'.plain_cons hno hp fun r hr hi => h ⟨r, hr, hw ▸ hi⟩, ?_⟩
      rw [textOf_cons, Segment.text_plain rfl, hw]
      rfl
termination_by s.length

/-! ## No text has two layouts -/

theorem WellFormed.content_length_le {x x' : Segment} {l l' : List Segment} (h : WellFormed (x :: l))
    (h' : WellFormed (x' :: l')) (hx : x.region = .plain) (hx' : x'.region = .plain)
    (he : x.content ++ textOf l = x'.content ++ textOf l') : x'.content.length ≤ x.content.length := by
  rcases Nat.lt_or_ge x.content.length x'.content.length with hl | hl
  · have ht : textOf l = (x'.content ++ textOf l').drop x.content.length := by rw [← he, List.drop_left]
    cases hc : textOf l with
    | nil =>
      have := congrArg List.length he
      simp [hc] at this
      omega
    | cons c t =>
      obtain ⟨y, _, hy, m, ho⟩ := opener_of_precedes h hx hc
      obtain ⟨_, hp, hlw⟩ := wellFormed_cons.mp h
      cases l with
      | nil => cases hc
      | cons z l =>
        have hz : z.region.Marked := by
          rcases (hlw.legal z (by simp)).plain_or_marked with hz | hz
          · have := hp z rfl
            simp [Segment.Precedes, hx, hz] at this
          · exact hz
        refine absurd ?_ (h'.no_opener hx' _ hl z.region hz)
        rw [← ht, textOf_cons]
        exact z.opener_prefix _
  · exact hl

theorem Segment.Legal.eq_of_plain {x : Segment} (h : x.Legal) (hx : x.region = .plain) :
    x = ⟨.plain, x.content, true⟩ := by
  rw [← hx, ← (h.plain hx).1]

theorem WellFormed.plain_ne_marked {x x' : Segment} {l l' : List Segment} (h : WellFormed (x :: l))
    (hx : x.region = .plain) (hx' : x'.region.Marked) : textOf (x :: l) ≠ textOf (x' :: l') := by
  intro he
  have hlen : 0 < x.content.length := List.length_pos_iff.mpr ((wellFormed_cons.mp h).1.plain hx).2.1
  refine absurd ?_ (h.no_opener hx 0 hlen x'.region hx')
  rw [textOf_cons, Segment.text_plain hx, textOf_cons] at he
  rw [List.drop_zero, he]
  exact x'.opener_prefix _

theorem WellFormed.textOf_ne_nil {x : Segment} {l : List Segment} (h : WellFormed (x :: l)) :
    textOf (x :: l) ≠ [] := by
  obtain ⟨hx, _, _⟩ := wellFormed_cons.mp h
  rw [textOf_cons]
  rcases hx.plain_or_marked with hr | hr
  · rw [Segment.text_plain hr]
    exact List.append_ne_nil_of_left_ne_nil (hx.plain hr).2.1 _
  · obtain ⟨c, m, ho⟩ := hr.opener_eq
    simp [Segment.text, ho]

theorem layout_unique : ∀ {l l' : List Segment}, WellFormed l → WellFormed l' → textOf l = textOf l' → l = l'
  | [], [], _, _, _ => rfl
  | [], x' :: l', _, h', he => absurd he h'.textOf_ne_nil.symm
  | x :: l, [], h, _, he => absurd he h.textOf_ne_nil
  | x :: l, x' :: l', h, h', he => by
    obtain ⟨hx, hp, hl⟩ := wellFormed_cons.mp h
    obtain ⟨hx', hp', hl'⟩ := wellFormed_cons.mp h'
    rcases hx.plain_or_marked with hr | hr <;> rcases hx'.plain_or_marked with hr' | hr'
    · rw [textOf_cons, textOf_cons, Segment.text_plain hr, Segment.text_plain hr'] at he
      have hlen := Nat.le_antisymm (h'.content_length_le h hr' hr he.symm) (h.content_length_le h' hr hr' he)
      obtain ⟨hc, he⟩ := List.append_inj he hlen
      rw [hx.eq_of_plain hr, hx'.eq_of_plain hr', hc, layout_unique hl hl' he]
    · exact absurd he (h.plain_ne_marked hr hr')
    · exact absurd he.symm (h'.plain_ne_marked hr' hr)
    · obtain ⟨r, c, b⟩ := x
      obtain ⟨r', c', b'⟩ := x'
      obtain rfl : r = r' := by
        refine opener_unique hr hr' (s := textOf (⟨r, c, b⟩ :: l)) ?_ ?_
        · rw [textOf_cons]; exact Segment.opener_prefix ⟨r, c, b⟩ _
        · rw [he, textOf_cons]; exact Segment.opener_prefix ⟨r', c', b'⟩ _
      simp only [textOf_cons, Segment.text, List.append_assoc] at he
      have he := List.append_cancel_left he
      cases b with
      | true =>
        have hx : r.Holds c := hx
        cases b' with
        | true =>
          have hx' : r.Holds c' := hx'
          have he : r.encode c ++ r.closer ++ textOf l = r.encode c' ++ r.closer ++ textOf l' := by
            simpa using he
          obtain ⟨hc, ht⟩ := content_unique hr hx hx' h.endsBefore h'.endsBefore he
          rw [hc, layout_unique hl hl' ht]
        | false =>
          obtain rfl := h'.last_of_open rfl
          have hx' : r.HoldsOpen c' := hx'
          exact absurd (by simpa [textOf] using he) (content_not_open (c := c) hx' h.endsBefore)
      | false =>
        obtain rfl := h.last_of_open rfl
        have hx : r.HoldsOpen c := hx
        cases b' with
        | true => exact absurd (by simpa [textOf] using he.symm) (content_not_open (c := c') hx h'.endsBefore)
        | false =>
          obtain rfl := h'.last_of_open rfl
          have he : r.encode c = r.encode c' := by simpa [textOf] using he
          rw [openContent_unique hr he]

/-- **Normal text by layout.** Each text has one well-formed layout, and its normal text is the lowercase
of what the segments of the layout leave. -/
theorem normalize_layout :
    (∀ l, WellFormed l → normalize (.ofList (textOf l)) = .ofList (lower (outOf l))) ∧
      ∀ s : String, ∃! l, WellFormed l ∧ textOf l = s.toList := by
  refine ⟨fun l h => ?_, fun s => ?_⟩
  · rw [normalize, normal, String.toList_ofList, strip_textOf h]
  · obtain ⟨l, h, hs⟩ := exists_layout s.toList
    exact ⟨l, ⟨h, hs⟩, fun l' ⟨h', hs'⟩ => layout_unique h' h (hs'.trans hs.symm)⟩

end MigrationLint.Sql
