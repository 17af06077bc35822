import MigrationLint.Proofs.Hidden

/-!
# Inert characters

An inert character stands in no opener, and in no closer but a newline. Where a scan is in plain text
behind one, it goes on in plain text whatever follows, and the character is left (`PlainAt.extend`). A text
without quotes, dollar signs and comment openers is stripped to itself (`strip_bare`).
-/

namespace MigrationLint.Sql

/-- No opener starts or goes on with the character. -/
def Inert (c : Char) : Prop := isTagChar c = false ∧ c ∉ ['-', '/', '*', '\x27', '\x22', '$']

instance (c : Char) : Decidable (Inert c) := by unfold Inert; infer_instance

/-- Plain text, or a region that an opener opens. -/
def Region.Proper (r : Region) : Prop := r = .plain ∨ r.Marked

section
variable {c : Char} (hc : Inert c)
include hc

theorem Inert.not_mem_tag {tag : List Char} (ht : IsTag tag) : c ∉ tag := by
  obtain ⟨name, hn, rfl⟩ := ht
  intro hm
  have hd : c ≠ '$' := fun e => hc.2 (by simp [e])
  have hm : c ∈ name := by simpa [hd] using hm
  exact Bool.noConfusion (hc.1.symm.trans (hn c hm))

theorem Inert.not_mem_opener {r : Region} (hr : r.Marked) : c ∉ r.opener := by
  have hx := hc.2
  simp only [List.mem_cons, List.not_mem_nil, or_false, not_or] at hx
  cases r with
  | plain => cases hr
  | body tag => exact hc.not_mem_tag hr
  | _ => simp [Region.opener, hx]

end

/-! ## Marks before a character -/

/-- A mark without the character `c` ends before `c` or is not there. -/
theorem prefix_before {m p t : List Char} {c : Char} (hm : c ∉ m) : m <+: p ++ c :: t ↔ m <+: p := by
  constructor
  · intro h
    rcases Nat.lt_or_ge p.length m.length with hl | hl
    · have hp : p ++ [c] <+: p ++ c :: t := ⟨t, by simp⟩
      have := List.prefix_of_prefix_length_le hp h (by simpa using Nat.succ_le_of_lt hl)
      exact absurd (this.subset (by simp)) hm
    · exact List.prefix_of_prefix_length_le h (List.prefix_append p _) hl
  · exact fun h => h.trans (List.prefix_append p _)

theorem head?_before {p t : List Char} {c d : Char} (hd : c ≠ d) :
    (p ++ c :: t).head? = some d ↔ p.head? = some d := by
  cases p <;> simp [hd]

/-- What the region reads before the character `c` does not depend on what follows `c`, and it does not reach
that far. -/
structure Region.Settled (r : Region) (c d : Char) (p : List Char) : Prop where
  same : ∀ t, r.read d (p ++ c :: t) = r.read d (p ++ [c])
  skip_le : (r.read d (p ++ [c])).skip ≤ p.length
  proper : (r.read d (p ++ [c])).region.Proper

section
variable {c : Char} {r : Region} (d : Char) (p : List Char)

theorem settled_quote {q : Char} (hq : r.quote? = some q) (hcq : c ≠ q) : r.Settled c d p := by
  have hr := (marked_of_quote hq).1
  have hread : ∀ t, r.read d (p ++ c :: t) =
      if d = q then if p.head? = some q then ⟨r.keep [q], r, 1⟩ else ⟨r.closeOut, .plain, 0⟩
      else ⟨r.keep [d], r, 0⟩ := by
    intro t
    rw [read_quote hq, if_congr (head?_before hcq) rfl rfl]
  refine ⟨fun t => by rw [hread, hread], ?_, ?_⟩ <;> rw [hread]
  · split
    · split
      · rename_i hp
        obtain ⟨p, rfl⟩ := List.head?_eq_some_iff.mp hp
        simp
      · exact Nat.zero_le _
    · exact Nat.zero_le _
  · split
    · split
      · exact .inr hr
      · exact .inl rfl
    · exact .inr hr

theorem settled_raw (hr : r.Raw) (hm : r.Marked) (hcm : c ∉ r.closer) : r.Settled c d p := by
  have hread : ∀ t, r.read d (p ++ c :: t) =
      if r.closer <+: d :: p then ⟨r.closeOut, .plain, r.closer.length - 1⟩ else ⟨[], r, 0⟩ := by
    intro t
    rw [hr.read_eq, ← List.cons_append, if_congr (prefix_before hcm) rfl rfl]
  refine ⟨fun t => by rw [hread, hread], ?_, ?_⟩ <;> rw [hread]
  · split
    · rename_i hp
      have := hp.length_le
      simp only [List.length_cons] at this ⊢
      omega
    · exact Nat.zero_le _
  · split
    · exact .inl rfl
    · exact .inr hm

theorem settled_line : Region.line.Settled c d p := by
  refine ⟨fun t => rfl, ?_, ?_⟩ <;> simp only [Region.read] <;> split
  · exact Nat.zero_le _
  · exact Nat.zero_le _
  · exact .inl rfl
  · exact .inr trivial

variable (hc : Inert c)
include hc

theorem settled_plain : Region.plain.Settled c d p := by
  have hopen : ∀ r : Region, r.Marked → ∀ t, (r.opener <+: d :: (p ++ c :: t) ↔ r.opener <+: d :: p) :=
    fun r hr t => prefix_before (p := d :: p) (hc.not_mem_opener hr)
  by_cases hr : ∃ r : Region, r.Marked ∧ r.opener <+: d :: p
  · obtain ⟨r, hr, hp⟩ := hr
    have hread : ∀ t, Region.plain.read d (p ++ c :: t) = ⟨r.openOut, r, r.opener.length - 1⟩ :=
      fun t => read_opener hr ((hopen r hr t).mpr hp)
    refine ⟨fun t => by rw [hread, hread], ?_, ?_⟩ <;> rw [hread]
    · have := hp.length_le
      simp only [List.length_cons] at this ⊢
      omega
    · exact .inr hr
  · have hread : ∀ t, Region.plain.read d (p ++ c :: t) = ⟨[d], .plain, 0⟩ :=
      fun t => read_plain fun r h hp => hr ⟨r, h, (hopen r h t).mp hp⟩
    refine ⟨fun t => by rw [hread, hread], ?_, ?_⟩ <;> rw [hread]
    · exact Nat.zero_le _
    · exact .inl rfl

/-- No region looks beyond an inert character, and none skips it. -/
theorem Region.Proper.settled (hr : r.Proper) : r.Settled c d p := by
  have hx := hc.2
  simp only [List.mem_cons, List.not_mem_nil, or_false, not_or] at hx
  rcases hr with rfl | hr
  · exact settled_plain d p hc
  cases r with
  | plain => cases hr
  | line => exact settled_line d p
  | block => exact settled_raw d p trivial trivial (by simp [Region.closer, hx])
  | literal => exact settled_quote d p rfl hx.2.2.2.1
  | quoted => exact settled_quote d p rfl hx.2.2.2.2.1
  | body tag => exact settled_raw d p hr hr (hc.not_mem_tag hr)

omit p d hc in
theorem not_prefix_cons {m t : List Char} (hm : c ∉ m) (h0 : m ≠ []) : ¬ m <+: c :: t := by
  intro hp
  obtain ⟨e, m, rfl⟩ := List.exists_cons_of_ne_nil h0
  obtain ⟨rfl, -⟩ := List.cons_prefix_cons.mp hp
  exact hm List.mem_cons_self

omit p d in
/-- An inert character behind which the text is plain is left there. -/
theorem read_inert (hr : r.Proper) (h : (r.read c []).region = .plain) (t : List Char) :
    r.read c t = ⟨[c], .plain, 0⟩ := by
  have hx := hc.2
  simp only [List.mem_cons, List.not_mem_nil, or_false, not_or] at hx
  rcases hr with rfl | hr
  · refine read_plain fun r hr => not_prefix_cons (hc.not_mem_opener hr) ?_
    obtain ⟨e, m, ho⟩ := hr.opener_eq
    simp [ho]
  · cases r with
    | plain => cases hr
    | line =>
      by_cases hn : c = '\n'
      · simp [Region.read, hn]
      · simp [Region.read, hn] at h
    | block => simp [Region.read, hx] at h
    | literal => simp [Region.read, hx] at h
    | quoted => simp [Region.read, hx] at h
    | body tag =>
      have hn : ¬ tag <+: c :: [] :=
        not_prefix_cons (hc.not_mem_tag hr) (by obtain ⟨s, rfl⟩ := IsTag.cons hr; simp)
      simp [Region.read, hn] at h

omit d in
theorem readAll_inert (hr : r.Proper) {k : Nat} (hk : k ≤ p.length) (h : (r.readAll k (p ++ [c]) []).Plain) :
    ∃ out, ∀ t, r.readAll k (p ++ [c]) t = ⟨out ++ [c], .plain, 0⟩ := by
  -- `k` stays within `p`, so the inert character is read and not skipped
  induction p generalizing r k with
  | nil =>
    obtain rfl := Nat.le_zero.mp hk
    refine ⟨[], fun t => ?_⟩
    rw [List.nil_append, Region.readAll]
    simp only [List.nil_append, read_inert hc hr h.1 t]
    rfl
  | cons d p ih =>
    cases k with
    | succ k => exact ih hr (Nat.le_of_succ_le_succ hk) h
    | zero =>
      have hd := hr.settled d p hc
      rw [List.cons_append, readAll_cons_plain, List.append_nil] at h
      obtain ⟨out, hout⟩ := ih hd.proper hd.skip_le h
      refine ⟨(r.read d (p ++ [c])).out ++ out, fun t => ?_⟩
      have hsame : r.read d (p ++ [c] ++ t) = r.read d (p ++ [c]) := by
        rw [List.append_assoc, List.singleton_append, hd.same]
      simp only [List.cons_append, Region.readAll, hsame, hout]
      rw [List.append_assoc]

end

/-- Behind an inert character plain text stays plain, whatever follows, and the character is left. -/
theorem PlainAt.extend {p : List Char} (h : PlainAt p []) (hc : ∀ c ∈ p.getLast?, Inert c) :
    (∀ t, PlainAt p t) ∧ (strip p).getLast? = p.getLast? := by
  rcases List.eq_nil_or_concat p with rfl | ⟨p, c, rfl⟩
  · exact ⟨fun t => ⟨rfl, rfl⟩, rfl⟩
  · rw [List.concat_eq_append] at h hc ⊢
    obtain ⟨out, hout⟩ := readAll_inert p (hc c (by simp)) (.inl rfl) (Nat.zero_le _) h
    refine ⟨fun t => ?_, ?_⟩
    · rw [PlainAt, hout]
      exact ⟨rfl, rfl⟩
    · have := h.strip_eq
      rw [hout, List.append_nil] at this
      rw [this]
      simp [strip, stripFrom]

/-! ## Texts without openers -/

theorem strip_cons_of {c : Char} (hc : c ∉ ['-', '/', '\x27', '\x22', '$']) (s : List Char) :
    strip (c :: s) = c :: strip s := by
  refine strip_cons fun r hr hp => hc ?_
  obtain ⟨e, m, ho⟩ := hr.opener_eq
  rw [ho, List.cons_prefix_cons] at hp
  obtain ⟨rfl, -⟩ := hp
  rcases opener_head hr ho with ⟨rfl, -⟩ | rfl | rfl | rfl | ⟨rfl, -⟩ <;> simp

theorem strip_append_of {s : List Char} (h : ∀ c ∈ s, c ∉ ['-', '/', '\x27', '\x22', '$']) (t : List Char) :
    strip (s ++ t) = s ++ strip t := by
  induction s with
  | nil => rfl
  | cons c s ih =>
    rw [List.forall_mem_cons] at h
    rw [List.cons_append, strip_cons_of h.1, ih h.2, List.cons_append]

/-- No opener occurs in the text. -/
def Bare (s : List Char) : Prop :=
  (∀ c ∈ s, c ≠ '\x27' ∧ c ≠ '\x22' ∧ c ≠ '$') ∧ ¬ ['-', '-'] <:+: s ∧ ¬ ['/', '*'] <:+: s

theorem bare_of_chars {s : List Char} (h : ∀ c ∈ s, c ∉ ['-', '/', '\x27', '\x22', '$']) : Bare s := by
  refine ⟨fun c hc => ?_, fun hm => h '-' (hm.subset (by simp)) (by simp),
    fun hm => h '/' (hm.subset (by simp)) (by simp)⟩
  have := h c hc
  simp only [List.mem_cons, not_or] at this
  exact ⟨this.2.2.1, this.2.2.2.1, this.2.2.2.2.1⟩

theorem strip_eq_self {s : List Char} (h : ∀ r : Region, r.Marked → ¬ r.opener <:+: s) : strip s = s := by
  induction s with
  | nil => rfl
  | cons c s ih =>
    have hs : strip (c :: s) = c :: strip s := strip_cons fun r hr hp => h r hr hp.isInfix
    rw [hs, ih fun r hr hi => h r hr (hi.trans (List.suffix_cons c s).isInfix)]

theorem strip_bare {s : List Char} (h : Bare s) : strip s = s := by
  obtain ⟨hc, hd, hb⟩ := h
  refine strip_eq_self fun r hr hi => ?_
  cases r with
  | plain => cases hr
  | line => exact hd hi
  | block => exact hb hi
  | literal => exact (hc _ (hi.subset List.mem_cons_self)).1 rfl
  | quoted => exact (hc _ (hi.subset List.mem_cons_self)).2.1 rfl
  | body tag =>
    obtain ⟨t, rfl⟩ := IsTag.cons hr
    exact (hc _ (hi.subset List.mem_cons_self)).2.2 rfl

theorem pair_infix_append {a b : Char} {s t : List Char} :
    [a, b] <:+: s ++ t ↔ [a, b] <:+: s ∨ (s.getLast? = some a ∧ t.head? = some b) ∨ [a, b] <:+: t := by
  induction s with
  | nil => simp
  | cons c s ih =>
    rw [List.cons_append, List.infix_cons_iff, List.infix_cons_iff, ih]
    cases s with
    | nil =>
      cases t with
      | nil => simp
      | cons e t => simp [@eq_comm _ a c, @eq_comm _ b e]
    | cons d s => simp [List.getLast?_cons, or_assoc]

theorem Bare.append {s t : List Char} (hs : Bare s) (ht : Bare t)
    (h : ∀ c ∈ s.getLast?, c ≠ '-' ∧ c ≠ '/' ∨ ∀ d ∈ t.head?, d ≠ '-' ∧ d ≠ '*') :
    Bare (s ++ t) := by
  refine ⟨List.forall_mem_append.mpr ⟨hs.1, ht.1⟩, ?_, ?_⟩ <;> rw [pair_infix_append]
  · rintro (hx | ⟨ha, hb⟩ | hx)
    · exact hs.2.1 hx
    · rcases h _ ha with hc | hc
      · exact hc.1 rfl
      · exact (hc _ hb).1 rfl
    · exact ht.2.1 hx
  · rintro (hx | ⟨ha, hb⟩ | hx)
    · exact hs.2.2 hx
    · rcases h _ ha with hc | hc
      · exact hc.2 rfl
      · exact (hc _ hb).2 rfl
    · exact ht.2.2 hx

end MigrationLint.Sql
