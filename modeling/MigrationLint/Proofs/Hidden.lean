import MigrationLint.Proofs.Layouts
import MigrationLint.Sql.Check

/-!
# Hidden contents

A scan that is in plain text again at the end of a text has not looked beyond that end
(`readAll_congr`). So what a comment, a literal or a body holds changes nothing in a check
(`check_hidden`).
-/

namespace MigrationLint.Sql

open Text

/-- What reading the characters of `p` does, `k` of them still skipped, with `s` behind them. -/
def Region.readAll : Region → Nat → List Char → List Char → Reading
  | r, k, [], _ => ⟨[], r, k⟩
  | r, k + 1, _ :: p, s => readAll r k p s
  | r, 0, c :: p, s =>
    let x := r.read c (p ++ s)
    let y := readAll x.region x.skip p s
    ⟨x.out ++ y.out, y.region, y.skip⟩

/-- The scan goes on in plain text. -/
def Reading.Plain (x : Reading) : Prop := x.region = .plain ∧ x.skip = 0

theorem readAll_cons_plain {r : Region} {c : Char} {p s : List Char} :
    (r.readAll 0 (c :: p) s).Plain ↔
      ((r.read c (p ++ s)).region.readAll (r.read c (p ++ s)).skip p s).Plain := Iff.rfl

/-- The scan of `p ++ s` reaches the start of `s` in plain text. -/
def PlainAt (p s : List Char) : Prop := (Region.plain.readAll 0 p s).Plain

theorem stripFrom_append (r : Region) (k : Nat) (p s : List Char) :
    stripFrom r k (p ++ s) =
      (r.readAll k p s).out ++ stripFrom (r.readAll k p s).region (r.readAll k p s).skip s := by
  induction p generalizing r k with
  | nil => rfl
  | cons c p ih =>
    cases k with
    | succ k => simpa [stripFrom, Region.readAll] using ih r k
    | zero => simp [stripFrom, Region.readAll, ih]

theorem PlainAt.strip_eq {p s : List Char} (h : PlainAt p s) :
    strip (p ++ s) = (Region.plain.readAll 0 p s).out ++ strip s := by
  rw [strip, stripFrom_append, h.1, h.2]
  rfl

/-! ## Looking ahead -/

theorem Reading.Plain.skip_le {r : Region} {k : Nat} {p s : List Char} (h : (r.readAll k p s).Plain) :
    k ≤ p.length := by
  induction p generalizing r k with
  | nil => exact h.2.le
  | cons c p ih =>
    cases k with
    | succ k => exact Nat.succ_le_succ (ih h)
    | zero => exact Nat.zero_le _

theorem Reading.Plain.tag_le {tag : List Char} {k : Nat} {p s : List Char}
    (h : ((Region.body tag).readAll k p s).Plain) : tag.length ≤ p.length := by
  induction p generalizing k with
  | nil => cases h.1
  | cons c p ih =>
    cases k with
    | succ k => exact Nat.le_succ_of_le (ih h)
    | zero =>
      rw [readAll_cons_plain] at h
      by_cases ht : tag.isPrefixOf (c :: (p ++ s)) = true
      · have hr : (Region.body tag).read c (p ++ s) = ⟨[' '], .plain, tag.length - 1⟩ := by
          simp [Region.read, ht]
        rw [hr] at h
        have : tag.length - 1 ≤ p.length := h.skip_le
        simp only [List.length_cons]
        omega
      · have hr : (Region.body tag).read c (p ++ s) = ⟨[], .body tag, 0⟩ := by
          simp [Region.read, ht]
        rw [hr] at h
        exact Nat.le_succ_of_le (ih h)

theorem prefix_iff_of_le {m p : List Char} (h : m.length ≤ p.length) (t : List Char) : m <+: p ++ t ↔ m <+: p :=
  ⟨fun hp => List.prefix_of_prefix_length_le hp (List.prefix_append p t) h,
    fun hp => hp.trans (List.prefix_append p t)⟩

/-- `s'` takes the place of `s`: it is empty, or it starts with the same character, which no tag goes
on with. -/
def Replaces (s' s : List Char) : Prop :=
  s' = [] ∨ ∃ a t t', s = a :: t ∧ s' = a :: t' ∧ isTagChar a = false

section
variable {s s' : List Char} (hs : Replaces s' s)
include hs

/-- Only a mark that reaches from `p` into `s` could tell `s` from what replaces it. -/
theorem Replaces.head?_iff {p : List Char} {d : Char} (h : p = [] → s.head? ≠ some d) :
    (p ++ s').head? = some d ↔ (p ++ s).head? = some d := by
  cases p with
  | cons e p => rfl
  | nil =>
    rcases hs with rfl | ⟨a, t, t', rfl, rfl, _⟩
    · simpa using h rfl
    · rfl

theorem Replaces.opener_iff {r : Region} (hr : r.Marked) {c : Char} {p : List Char}
    (h : r.opener <+: c :: (p ++ s) → r.opener.length ≤ p.length + 1) :
    r.opener <+: c :: (p ++ s') ↔ r.opener <+: c :: (p ++ s) := by
  rw [← List.cons_append, ← List.cons_append] at *
  rcases Nat.lt_or_ge (c :: p).length r.opener.length with hl | hl
  · have hn : ¬ r.opener <+: c :: p ++ s := fun hp => absurd (h hp) (Nat.not_le.mpr hl)
    refine iff_of_false (fun hp => hn ?_) hn
    obtain ⟨v, hv⟩ := List.prefix_of_prefix_length_le (List.prefix_append (c :: p) s') hp hl.le
    have hv0 : v ≠ [] := by
      intro e
      subst e
      simp [← hv] at hl
    rw [← hv, List.prefix_append_right_inj] at hp ⊢
    rcases hs with rfl | ⟨a, t, t', rfl, rfl, ha⟩
    · exact absurd (List.prefix_nil.mp hp) hv0
    · -- the opener ends with the character that stands in both texts
      obtain ⟨d, v, rfl⟩ := List.exists_cons_of_ne_nil hv0
      rw [List.cons_prefix_cons] at hp ⊢
      obtain ⟨rfl, _⟩ := hp
      have hnil : v = [] := by
        rcases opener_across hr hv.symm (List.cons_ne_nil _ _) hv0 with ⟨_, h⟩ | h | ⟨name, rest, hn, _, h⟩
        · exact (List.cons.inj h).2
        · exact (List.cons.inj h).2
        · cases rest with
          | nil => exact (List.cons.inj h).2
          | cons e rest =>
            obtain rfl : d = e := (List.cons.inj h).1
            rw [hn d (by simp)] at ha
            cases ha
      simp [hnil]
  · rw [prefix_iff_of_le hl, prefix_iff_of_le hl]

section
variable {c : Char} {p : List Char}

theorem Replaces.read_quote_eq {r : Region} {q : Char} (hq : r.quote? = some q)
    (h : ((r.read c (p ++ s)).region.readAll (r.read c (p ++ s)).skip p s).Plain) :
    r.read c (p ++ s') = r.read c (p ++ s) := by
  rw [read_quote hq, read_quote hq]
  by_cases hc : c = q
  · rw [if_pos hc, if_pos hc]
    refine if_congr (hs.head?_iff ?_) rfl rfl
    intro hp hd
    subst hp
    rw [read_quote hq, if_pos hc, List.nil_append, if_pos hd] at h
    cases h.2
  · rw [if_neg hc, if_neg hc]

omit hs in
theorem Reading.Plain.tag_le_cons {tag : List Char}
    (h : (((Region.body tag).read c (p ++ s)).region.readAll ((Region.body tag).read c (p ++ s)).skip p s).Plain) :
    tag.length ≤ (c :: p).length := by
  by_cases ht : tag.isPrefixOf (c :: (p ++ s)) = true
  · simp only [Region.read, ht, ite_true] at h
    have := h.skip_le
    simp only [List.length_cons]
    omega
  · simp only [Region.read, ht] at h
    exact Nat.le_succ_of_le h.tag_le

theorem Replaces.read_plain_eq
    (h : ((Region.plain.read c (p ++ s)).region.readAll (Region.plain.read c (p ++ s)).skip p s).Plain) :
    Region.plain.read c (p ++ s') = Region.plain.read c (p ++ s) := by
  have opener : ∀ r : Region, r.Marked → (r.opener <+: c :: (p ++ s') ↔ r.opener <+: c :: (p ++ s)) := by
    intro r hr
    refine hs.opener_iff hr fun hp => ?_
    rw [read_opener hr hp] at h
    have : r.opener.length - 1 ≤ p.length := h.skip_le
    omega
  by_cases hr : ∃ r : Region, r.Marked ∧ r.opener <+: c :: (p ++ s)
  · obtain ⟨r, hr, hp⟩ := hr
    rw [read_opener hr hp, read_opener hr ((opener r hr).mpr hp)]
  · have hn : ∀ r : Region, r.Marked → ¬ r.opener <+: c :: (p ++ s) := fun r h hp => hr ⟨r, h, hp⟩
    rw [read_plain hn, read_plain fun r h hp => hn r h ((opener r h).mp hp)]

theorem Replaces.read_eq {r : Region}
    (h : ((r.read c (p ++ s)).region.readAll (r.read c (p ++ s)).skip p s).Plain) :
    r.read c (p ++ s') = r.read c (p ++ s) := by
  cases r with
  | line => rfl
  | literal => exact hs.read_quote_eq rfl h
  | quoted => exact hs.read_quote_eq rfl h
  | block =>
    simp only [Region.read]
    refine if_congr (and_congr_right fun hc => hs.head?_iff ?_) rfl rfl
    intro hp hd
    subst hp
    simp only [Region.read, List.nil_append, hc, hd, and_self, ite_true] at h
    cases h.2
  | body tag =>
    have := prefix_iff_of_le h.tag_le_cons
    simp only [List.cons_append] at this
    simp only [Region.read, List.isPrefixOf_iff_prefix, this]
  | plain => exact hs.read_plain_eq h

end

theorem readAll_congr {r : Region} {k : Nat} {p : List Char} (h : (r.readAll k p s).Plain) :
    r.readAll k p s' = r.readAll k p s := by
  induction p generalizing r k with
  | nil => rfl
  | cons c p ih =>
    cases k with
    | succ k => exact ih h
    | zero =>
      rw [readAll_cons_plain] at h
      simp only [Region.readAll]
      rw [hs.read_eq h, ih h]

end

theorem PlainAt.replace {p s s' : List Char} (h : PlainAt p s) (hs : Replaces s' s) : PlainAt p s' := by
  rw [PlainAt, readAll_congr hs h]
  exact h

/-- What stands before a place in plain text is stripped as if nothing followed. -/
theorem PlainAt.strip_append {p s : List Char} (h : PlainAt p s) : strip (p ++ s) = strip p ++ strip s := by
  have hp := (h.replace (.inl rfl)).strip_eq
  rw [readAll_congr (.inl rfl) h, List.append_nil] at hp
  rw [h.strip_eq, hp]
  simp [strip, stripFrom]

/-! ## Contents that no check sees -/

/-- The regions whose content stripping takes away. -/
def Region.Hides : Region → Prop
  | .plain => False
  | .quoted => False
  | .body tag => IsTag tag
  | _ => True

theorem Region.Hides.marked {r : Region} (hr : r.Hides) : r.Marked := by
  cases r <;> first | exact hr | trivial

theorem Region.Hides.keep_eq {r : Region} (hr : r.Hides) (s : List Char) : r.keep s = [] := by
  cases r <;> first | rfl | cases hr

theorem replaces_opener {r : Region} (hr : r.Marked) (s s' : List Char) :
    Replaces (r.opener ++ s') (r.opener ++ s) := by
  obtain ⟨c, m, ho⟩ := hr.opener_eq
  refine .inr ⟨c, m ++ s, m ++ s', by rw [ho]; rfl, by rw [ho]; rfl, ?_⟩
  rcases opener_head hr ho with ⟨rfl, _⟩ | rfl | rfl | rfl | ⟨rfl, _⟩ <;> rfl

theorem strip_closed {r : Region} (hr : r.Marked) {c q : List Char} (hc : r.Holds c) (hq : r.EndsBefore q) :
    strip (Segment.text ⟨r, c, true⟩ ++ q) = Segment.out ⟨r, c, true⟩ ++ strip q := by
  simp only [Segment.text, Segment.out, strip, List.append_assoc, ite_true]
  rw [strip_opener hr, ← List.append_assoc (r.encode c), strip_content hr hc hq, List.append_assoc]

/-- A quoted name loses its quotes only. -/
theorem strip_quoted {x q : List Char} (hq : q.head? ≠ some '\x22') :
    strip (Segment.text ⟨.quoted, x, true⟩ ++ q) = x ++ strip q := by
  have hends : Region.quoted.EndsBefore q := by
    intro c hc
    cases hc
    exact hq
  rw [strip_closed (r := .quoted) trivial trivial hends]
  simp [Segment.out, Region.openOut, Region.keep, Region.closeOut]

theorem strip_hidden {r : Region} (hr : r.Hides) {p q c₁ c₂ : List Char} (h₁ : r.Holds c₁) (h₂ : r.Holds c₂)
    (hq : r.EndsBefore q) (h : PlainAt p (Segment.text ⟨r, c₁, true⟩ ++ q)) :
    strip (p ++ (Segment.text ⟨r, c₁, true⟩ ++ q)) = strip (p ++ (Segment.text ⟨r, c₂, true⟩ ++ q)) := by
  have h' : PlainAt p (Segment.text ⟨r, c₂, true⟩ ++ q) := by
    apply h.replace
    simp only [Segment.text, List.append_assoc]
    exact replaces_opener hr.marked _ _
  rw [h.strip_append, h'.strip_append, strip_closed hr.marked h₁ hq, strip_closed hr.marked h₂ hq]
  simp only [Segment.out, hr.keep_eq]

/-- **Hidden contents.** Two texts that differ only in what one comment, literal or body holds are checked
alike: they have the same statements with the same problems. -/
theorem check_hidden (policy : Policy) {r : Region} (hr : r.Hides) {p q c₁ c₂ : List Char} (h₁ : r.Holds c₁)
    (h₂ : r.Holds c₂) (hq : r = .literal → q.head? ≠ some '\x27')
    (h : PlainAt p (Segment.text ⟨r, c₁, true⟩ ++ q)) :
    check policy (.ofList (p ++ Segment.text ⟨r, c₁, true⟩ ++ q)) =
      check policy (.ofList (p ++ Segment.text ⟨r, c₂, true⟩ ++ q)) := by
  have hq : r.EndsBefore q := by
    intro d hd
    cases r with
    | literal => cases hd; exact hq rfl
    | quoted => cases hr
    | _ => cases hd
  simp only [check, normal, String.toList_ofList, List.append_assoc]
  rw [strip_hidden hr h₁ h₂ hq h]

/-- The body of a function, with a statement, another tag and a quote in it or empty. -/
theorem check_hidden_body :
    let tag := ['$', 'a', '$']
    let text := "; drop table auth.t; $$ '".toList
    FirstAt tag text ∧ PlainAt "as ".toList (Segment.text ⟨.body tag, text, true⟩ ++ [';']) ∧
      check ⟨"cb_", ["public"], ["auth"], []⟩
          (.ofList ("as ".toList ++ Segment.text ⟨.body tag, text, true⟩ ++ [';'])) =
        check ⟨"cb_", ["public"], ["auth"], []⟩
          (.ofList ("as ".toList ++ Segment.text ⟨.body tag, [], true⟩ ++ [';'])) := by
  have hr : IsTag ['$', 'a', '$'] := ⟨['a'], List.forall_mem_singleton.mpr rfl, rfl⟩
  have h₁ : FirstAt ['$', 'a', '$'] "; drop table auth.t; $$ '".toList := by unfold FirstAt; decide
  have hp : PlainAt "as ".toList
      (Segment.text ⟨.body ['$', 'a', '$'], "; drop table auth.t; $$ '".toList, true⟩ ++ [';']) := ⟨rfl, rfl⟩
  have h₂ : FirstAt ['$', 'a', '$'] [] := fun k hk => absurd hk (Nat.not_lt_zero k)
  exact ⟨h₁, hp, check_hidden _ (r := .body _) hr ⟨hr, h₁⟩ ⟨hr, h₂⟩ (by simp) hp⟩

end MigrationLint.Sql
