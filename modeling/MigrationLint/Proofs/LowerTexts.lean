import Mathlib.Data.List.Infix
import MigrationLint.Proofs.Inert
import MigrationLint.Proofs.Lowering
import MigrationLint.Proofs.Ordinary

/-!
# Normal texts normalized again

Lowercase text is its own lowercase (`lower_lower`), and lowercasing makes no opener but a tag: a Kelvin sign
between dollar signs becomes a `k`. So a text without openers is normal after one pass exactly if it has no such
tag (`normalize_normalize`).
-/

namespace MigrationLint.Text

theorem eq_of_shiftBy_eq_dot {n : Nat} (h : shiftBy n lowerRows = '\u0130'.toNat) : n = '\u0130'.toNat := by
  have rows : ∀ row ∈ lowerRows,
      row.2.2.2 + (row.2.1 - row.1) < '\u0130'.toNat ∨ '\u0130'.toNat < row.2.2.2 := by decide +kernel
  rcases shiftBy_cases n lowerRows with ⟨row, hr, ⟨h₁, h₂, -⟩, he⟩ | ⟨-, he⟩
  · have := rows row hr
    omega
  · omega

end MigrationLint.Text

namespace MigrationLint.Sql

open Text

/-! ## Lowercase text is stable -/

theorem Lowers.mem {c d : Char} (h : Lowers c d) : d ∈ lowerChar c := by simp [h.2]

theorem Lowers.ne_dot {c d : Char} (h : Lowers c d) : c ≠ '\u0130' := by
  rintro rfl
  exact absurd h.2 (by simp [lowerChar])

theorem Lowers.stable {c d : Char} (h : Lowers c d) : Lowers d d := by
  have hd := h.mem
  rcases Nat.lt_or_ge c.toNat 128 with hlt | hge
  · rw [lowerChar_ascii hlt, List.mem_singleton] at hd
    subst hd
    exact ⟨fun e => h.1 ((toLower_eq_sigma_iff c).mp e), (lowerChar_toLower c).trans h.2⟩
  rcases ge_of_mem_lowerChar hge hd with hge' | ⟨hdot, -⟩ | ⟨-, rfl⟩ | rfl
  · -- the form of `c` stands at `d`, and no row gives it another form
    have hform : d.toNat = shiftBy c.toNat lowerRows := by
      rw [lowerChar_of_ge hge h.ne_dot, List.mem_singleton] at hd
      rcases toNat_ofNat_or (shiftBy c.toNat lowerRows) with hv | hv
      · rw [hd, hv]
      · rw [hd, hv] at hge'
        exact absurd hge' (by decide)
    have hstable : shiftBy d.toNat lowerRows = d.toNat := by rw [hform, shiftBy_shiftBy]
    have hsigma : d ≠ '\u03A3' := by
      rintro rfl
      exact absurd hstable (by decide +kernel)
    have hdot : d ≠ '\u0130' := by
      rintro rfl
      exact h.ne_dot (Char.toNat_inj.mp (eq_of_shiftBy_eq_dot hform.symm))
    refine ⟨hsigma, ?_⟩
    rw [lowerChar_of_ge hge' hdot, hstable, Char.ofNat_toNat]
  · exact absurd hdot h.ne_dot
  · exact ⟨by decide, rfl⟩
  · exact ⟨by decide, rfl⟩

theorem lower_lower (s : List Char) : lower (lower s) = lower s := by
  apply lower_eq_self
  intro d hd
  obtain ⟨c, hc⟩ := exists_lowers hd
  exact hc.stable

/-! ## What a lowercase text is the lowercase of -/

/-- A character leaves its form. Only a capital I with a dot leaves a second character. -/
theorem lowerAfter_cons (cased : Bool) (c : Char) (s : List Char) :
    ∃ a x cased', lowerAfter cased (c :: s) = a :: (x ++ lowerAfter cased' s) ∧ (∀ d ∈ x, 128 ≤ d.toNat) ∧
      (Lowers c a ∧ x = [] ∨ 128 ≤ a.toNat ∨ a = 'i' ∧ x ≠ []) := by
  rw [lowerAfter]
  by_cases hc : c = '\u03A3'
  · refine ⟨_, [], _, congrArg (· ++ _) (if_pos hc), by simp, .inr (.inl ?_)⟩
    split <;> decide
  by_cases hdot : c = '\u0130'
  · subst hdot
    exact ⟨'i', ['\u0307'], _, rfl, by simp, .inr (.inr ⟨rfl, by simp⟩)⟩
  · have hform : ∃ a, lowerChar c = [a] := by
      rcases Nat.lt_or_ge c.toNat 128 with h | h
      · exact ⟨_, lowerChar_ascii h⟩
      · exact ⟨_, lowerChar_of_ge h hdot⟩
    obtain ⟨a, ha⟩ := hform
    exact ⟨a, [], _, congrArg (· ++ _) ((if_neg hc).trans ha), by simp, .inl ⟨⟨hc, ha⟩, rfl⟩⟩

section
variable {m : List Char} (hm : ∀ d ∈ m, d.toNat < 128)
include hm

theorem infix_of_infix_append (hne : m ≠ []) {x s : List Char} (hx : ∀ d ∈ x, 128 ≤ d.toNat) (h : m <:+: x ++ s) :
    m <:+: s := by
  induction x with
  | nil => exact h
  | cons e x ih =>
    rw [List.forall_mem_cons] at hx
    rcases List.infix_cons_iff.mp h with hp | hi
    · obtain ⟨d, m, rfl⟩ := List.exists_cons_of_ne_nil hne
      obtain ⟨rfl, -⟩ := List.cons_prefix_cons.mp hp
      have := hm d List.mem_cons_self
      omega
    · exact ih hx.2 hi

variable (hi : 'i' ∉ m.getLast?)
include hi

theorem exists_prefix {cased : Bool} {s : List Char} (h : m <+: lowerAfter cased s) :
    ∃ p, List.Forall₂ Lowers p m ∧ p <+: s := by
  induction s generalizing m cased with
  | nil =>
    obtain rfl := List.prefix_nil.mp h
    exact ⟨[], .nil, List.nil_prefix⟩
  | cons c s ih =>
    cases m with
    | nil => exact ⟨[], .nil, List.nil_prefix⟩
    | cons d m =>
      rw [List.forall_mem_cons] at hm
      obtain ⟨a, x, cased', ha, hx, hc⟩ := lowerAfter_cons cased c s
      rw [ha, List.cons_prefix_cons] at h
      obtain ⟨rfl, h⟩ := h
      rcases hc with ⟨hc, rfl⟩ | hc | ⟨rfl, hx'⟩
      · have hi' : 'i' ∉ m.getLast? := by
          intro hl
          apply hi
          rw [List.getLast?_cons, Option.mem_def.mp hl]
          rfl
        obtain ⟨p, hp, hs⟩ := ih hm.2 hi' h
        exact ⟨c :: p, .cons hc hp, List.cons_prefix_cons.mpr ⟨rfl, hs⟩⟩
      · omega
      · -- the dot stands behind the `i`, and so the mark would end there
        cases m with
        | nil => exact absurd rfl hi
        | cons e m =>
          obtain ⟨b, x, rfl⟩ := List.exists_cons_of_ne_nil hx'
          obtain ⟨rfl, -⟩ := List.cons_prefix_cons.mp h
          have := hm.2 e List.mem_cons_self
          have := hx e List.mem_cons_self
          omega

/-- A mark in a lowercase text is the lowercase of a text there. -/
theorem exists_infix (hne : m ≠ []) {s : List Char} (h : m <:+: lower s) :
    ∃ p, List.Forall₂ Lowers p m ∧ p <:+: s := by
  have along : ∀ cased, m <:+: lowerAfter cased s → ∃ p, List.Forall₂ Lowers p m ∧ p <:+: s := by
    clear h
    induction s with
    | nil =>
      intro cased h
      exact absurd (List.infix_nil.mp h) hne
    | cons c s ih =>
      intro cased h
      obtain ⟨a, x, cased', ha, hx, -⟩ := lowerAfter_cons cased c s
      rw [ha, List.infix_cons_iff, ← ha] at h
      rcases h with h | h
      · obtain ⟨p, hp, hs⟩ := exists_prefix hm hi h
        exact ⟨p, hp, hs.isInfix⟩
      · obtain ⟨p, hp, hs⟩ := ih cased' (infix_of_infix_append hm hne hx h)
        exact ⟨p, hp, hs.trans (List.suffix_cons c s).isInfix⟩
  exact along false h

end

/-! ## Openers in a lowercase text -/

/-- A tag, but with Kelvin signs among the letters of its name. -/
def IsKelvinTag (tag : List Char) : Prop :=
  ∃ name : List Char, (∀ c ∈ name, isTagChar c = true ∨ c = '\u212A') ∧ tag = '$' :: name ++ ['$']

theorem Lowers.isTagChar_iff {c d : Char} (h : Lowers c d) :
    isTagChar d = true ↔ isTagChar c = true ∨ c = '\u212A' := by
  have hd := h.mem
  rcases Nat.lt_or_ge c.toNat 128 with hlt | hge
  · rw [lowerChar_ascii hlt, List.mem_singleton] at hd
    subst hd
    exact forall_ascii (P := fun c => isTagChar c.toLower = true ↔ isTagChar c = true ∨ c = '\u212A') (by decide) hlt
  by_cases hk : c = '\u212A'
  · have hform : lowerChar '\u212A' = ['k'] := by decide +kernel
    rw [hk, hform, List.mem_singleton] at hd
    subst hd
    exact iff_of_true rfl (.inr hk)
  · refine iff_of_false (fun ht => ?_) (not_or.mpr ⟨fun ht => ?_, hk⟩)
    · rcases ge_of_mem_lowerChar hge hd with hge' | ⟨hdot, -⟩ | ⟨hk', -⟩ | rfl
      · have := lt_of_isTagChar ht
        omega
      · exact h.ne_dot hdot
      · exact hk hk'
      · cases ht
    · have := lt_of_isTagChar ht
      omega

theorem eq_of_forall₂_lowers {p m : List Char} (h : List.Forall₂ Lowers p m)
    (hm : ∀ d ∈ m, d ∈ ['-', '/', '*', '\x27', '\x22', '$']) : p = m := by
  induction h with
  | nil => rfl
  | @cons c d p m hcd _ ih =>
    rw [List.forall_mem_cons] at hm
    have hd : ∀ d ∈ ['-', '/', '*', '\x27', '\x22', '$'], d.toNat < 128 ∧ d.isAlpha = false ∧ d ≠ '\x00' :=
      forall_of_all (p := fun d : Char => d.toNat < 128 ∧ d.isAlpha = false ∧ d ≠ '\x00') (by decide)
    obtain ⟨hlt, ha, h0⟩ := hd d hm.1
    have hc : c = d := (mem_lowerChar_iff hlt ha h0).mp hcd.mem
    rw [hc, ih hm.2]

theorem tagChars_of_lowers {p m : List Char} (h : List.Forall₂ Lowers p m) (hm : ∀ d ∈ m, isTagChar d = true) :
    ∀ c ∈ p, isTagChar c = true ∨ c = '\u212A' := by
  induction h with
  | nil => simp
  | cons hcd _ ih =>
    rw [List.forall_mem_cons] at hm ⊢
    exact ⟨hcd.isTagChar_iff.mp hm.1, ih hm.2⟩

theorem isKelvinTag_of_lowers {p tag : List Char} (h : List.Forall₂ Lowers p tag) (ht : IsTag tag) :
    IsKelvinTag p := by
  obtain ⟨name, hn, rfl⟩ := ht
  obtain ⟨c, p, hc, hp, rfl⟩ := List.forall₂_cons_right_iff.mp h
  have hfirst : [c] = ['$'] := eq_of_forall₂_lowers (.cons hc .nil) (by simp)
  have hlast : p.drop name.length = ['$'] :=
    eq_of_forall₂_lowers (List.forall₂_drop_append p name ['$'] hp) (by simp)
  refine ⟨p.take name.length, tagChars_of_lowers (List.forall₂_take_append p name ['$'] hp) hn, ?_⟩
  rw [List.singleton_inj.mp hfirst, List.cons_append, ← hlast, List.take_append_drop]

theorem exists_tag_of_kelvin {tag : List Char} (ht : IsKelvinTag tag) {s : List Char} (h : tag <:+: s) :
    ∃ tag, IsTag tag ∧ tag <:+: lower s := by
  obtain ⟨name, hn, rfl⟩ := ht
  obtain ⟨u, v, rfl⟩ := h
  have hname : ∃ w, List.Forall₂ Lowers name w ∧ ∀ d ∈ w, isTagChar d = true := by
    induction name with
    | nil => exact ⟨[], .nil, by simp⟩
    | cons c name ih =>
      rw [List.forall_mem_cons] at hn
      obtain ⟨w, hw, hw'⟩ := ih hn.2
      have hc : ∃ d, Lowers c d := by
        rcases hn.1 with hc | rfl
        · have hlt := lt_of_isTagChar hc
          exact ⟨c.toLower, ne_sigma_of_lt hlt, lowerChar_ascii hlt⟩
        · exact ⟨'k', by decide, by decide +kernel⟩
      obtain ⟨d, hd⟩ := hc
      exact ⟨d :: w, .cons hd hw, List.forall_mem_cons.mpr ⟨hd.isTagChar_iff.mpr hn.1, hw'⟩⟩
  obtain ⟨w, hw, hw'⟩ := hname
  have hdollar : Breaks '$' := by decide
  refine ⟨'$' :: w ++ ['$'], ⟨w, hw', rfl⟩, lower u, lower v, ?_⟩
  have htext : u ++ ('$' :: name ++ ['$']) ++ v = u ++ '$' :: (name ++ '$' :: v) := by simp
  have hform : lowerChar '$' = ['$'] := rfl
  have hlower : lower name = w := lowerAfter_lowers hw false
  rw [htext, lower_break hdollar, lower_break hdollar, hform, hlower]
  simp

theorem opener_ascii {r : Region} (hr : r.Marked) : (∀ d ∈ r.opener, d.toNat < 128) ∧ 'i' ∉ r.opener.getLast? := by
  cases r with
  | plain => cases hr
  | body tag =>
    obtain ⟨name, hn, rfl⟩ := hr
    refine ⟨fun d hd => ?_, by simp [Region.opener, List.getLast?_cons]⟩
    have hd : d = '$' ∨ d ∈ name := by simpa [Region.opener, or_comm] using hd
    rcases hd with rfl | hd
    · decide
    · exact lt_of_isTagChar (hn d hd)
  | _ => simp [Region.opener]

/-- Lowercasing makes no opener but a tag, and that of a Kelvin tag. -/
theorem opener_of_lower {r : Region} (hr : r.Marked) {s : List Char} (h : r.opener <:+: lower s) :
    r.opener <:+: s ∨ ∃ tag, r = .body tag ∧ ∃ tag', IsKelvinTag tag' ∧ tag' <:+: s := by
  obtain ⟨hlt, hlast⟩ := opener_ascii hr
  have hne : r.opener ≠ [] := by
    obtain ⟨c, m, ho⟩ := hr.opener_eq
    simp [ho]
  obtain ⟨p, hp, hs⟩ := exists_infix hlt hlast hne h
  cases r with
  | plain => cases hr
  | body tag => exact .inr ⟨tag, rfl, p, isKelvinTag_of_lowers hp hr, hs⟩
  | _ =>
    rw [eq_of_forall₂_lowers hp (by simp [Region.opener])] at hs
    exact .inl hs

/-! ## Texts without openers -/

/-- No quote, no comment opener and no tag occurs in the text. -/
def Unmarked (s : List Char) : Prop :=
  '\x27' ∉ s ∧ '\x22' ∉ s ∧ ¬ ['-', '-'] <:+: s ∧ ¬ ['/', '*'] <:+: s ∧ ∀ tag, IsTag tag → ¬ tag <:+: s

theorem unmarked_iff {s : List Char} : Unmarked s ↔ ∀ r : Region, r.Marked → ¬ r.opener <:+: s := by
  constructor
  · intro hs r hr hi
    obtain ⟨hl, hq, hline, hblock, htag⟩ := hs
    cases r with
    | plain => cases hr
    | line => exact hline hi
    | block => exact hblock hi
    | literal => exact hl ((List.singleton_infix_iff _ _).mp hi)
    | quoted => exact hq ((List.singleton_infix_iff _ _).mp hi)
    | body tag => exact htag tag hr hi
  · intro h
    refine ⟨fun hm => ?_, fun hm => ?_, h .line trivial, h .block trivial, fun tag ht => h (.body tag) ht⟩
    · exact h .literal trivial ((List.singleton_infix_iff _ _).mpr hm)
    · exact h .quoted trivial ((List.singleton_infix_iff _ _).mpr hm)

theorem no_tag_iff {s : List Char} :
    (∀ tag, IsTag tag → ¬ tag <:+: s) ↔ ∀ t ∈ s.tails, tagAt t = none := by
  constructor
  · intro h t ht
    cases htag : tagAt t with
    | none => rfl
    | some tag =>
      obtain ⟨hi, hp⟩ := isTag_of_tagAt htag
      exact absurd (hp.isInfix.trans ((List.mem_tails t s).mp ht).isInfix) (h tag hi)
  · intro h tag ht hi
    obtain ⟨u, v, rfl⟩ := hi
    have := h (tag ++ v) ((List.mem_tails _ _).mpr ⟨u, by simp⟩)
    rw [tagAt_append ht] at this
    cases this

instance (s : List Char) : Decidable (Unmarked s) :=
  decidable_of_iff
    ('\x27' ∉ s ∧ '\x22' ∉ s ∧ ¬ ['-', '-'] <:+: s ∧ ¬ ['/', '*'] <:+: s ∧ ∀ t ∈ s.tails, tagAt t = none)
    (by rw [Unmarked, no_tag_iff])

/-- A text with tags, but no other opener, is stripped of the first of them. -/
theorem strip_tags {s tag : List Char} (h : ∀ r : Region, r.Marked → r.opener <:+: s → ∃ tag, r = .body tag)
    (ht : IsTag tag) (hs : tag <:+: s) : ∃ u y z, s = u ++ '$' :: y ∧ strip s = u ++ ' ' :: z := by
  induction s with
  | nil =>
    obtain ⟨m, rfl⟩ := ht.cons
    cases List.infix_nil.mp hs
  | cons c s ih =>
    by_cases ho : ∃ r : Region, r.Marked ∧ r.opener <+: c :: s
    · obtain ⟨r, hr, hp⟩ := ho
      obtain ⟨tag', rfl⟩ := h r hr hp.isInfix
      obtain ⟨m, rfl⟩ := IsTag.cons hr
      obtain ⟨rfl, -⟩ := List.cons_prefix_cons.mp hp
      refine ⟨[], s, stripFrom (.body ('$' :: m)) m.length s, rfl, ?_⟩
      rw [strip, stripFrom, read_opener hr hp]
      rfl
    · have hno : ∀ r : Region, r.Marked → ¬ r.opener <+: c :: s := fun r hr hp => ho ⟨r, hr, hp⟩
      have htail : tag <:+: s := (List.infix_cons_iff.mp hs).resolve_left (hno (.body tag) ht)
      obtain ⟨u, y, z, rfl, hz⟩ := ih (fun r hr hi => h r hr (hi.trans (List.suffix_cons c s).isInfix)) htail
      refine ⟨c :: u, y, z, rfl, ?_⟩
      rw [strip, strip_cons hno, ← strip, hz]
      rfl

/-- **Normalizing twice.** A text without quotes, comment openers and tags is only put in lowercase. The second
pass leaves it as it is exactly if it has no dollar signs with the letters of a tag and Kelvin signs between them. -/
theorem normalize_normalize {sql : String} (h : Unmarked sql.toList) :
    normalize sql = lowercase sql ∧
      (normalize (normalize sql) = normalize sql ↔ ∀ tag, IsKelvinTag tag → ¬ tag <:+: sql.toList) := by
  rw [unmarked_iff] at h
  have honce : normal sql.toList = lower sql.toList := by rw [normal, strip_eq_self h]
  have htwice : normalize (normalize sql) = normalize sql ↔ normal (lower sql.toList) = lower sql.toList := by
    simp only [normalize, String.toList_ofList, honce, String.ofList_inj]
  refine ⟨by rw [normalize, honce, lowercase], htwice.trans ⟨fun hn tag ht hi => ?_, fun hk => ?_⟩⟩
  · -- the second pass writes a blank where the first tag starts
    obtain ⟨tag', ht', hi'⟩ := exists_tag_of_kelvin ht hi
    have honly : ∀ r : Region, r.Marked → r.opener <:+: lower sql.toList → ∃ tag, r = .body tag := by
      intro r hr hr'
      obtain ⟨tag, rfl, -⟩ := (opener_of_lower hr hr').resolve_left (h r hr)
      exact ⟨tag, rfl⟩
    obtain ⟨u, y, z, hs, hz⟩ := strip_tags honly ht' hi'
    have hdollar : lower (lower sql.toList) = lower u ++ '$' :: lower y := by
      rw [hs]
      exact lower_break (by decide) u y
    have hblank : normal (lower sql.toList) = lower u ++ ' ' :: lower z := by
      rw [normal, hz]
      exact lower_break (by decide) u z
    rw [lower_lower, ← hn, hblank] at hdollar
    simp at hdollar
  · have hplain : ∀ r : Region, r.Marked → ¬ r.opener <:+: lower sql.toList := by
      intro r hr hr'
      obtain ⟨-, -, tag, ht, hi⟩ := (opener_of_lower hr hr').resolve_left (h r hr)
      exact hk tag ht hi
    rw [normal, strip_eq_self hplain, lower_lower]

/-- A Kelvin sign, a sigma at the end of a word, a capital I with a dot and a dollar sign. -/
theorem normalize_normalize_cased :
    let sql := "SELECT \u212A, \u039F\u03A3, \u0130 - $1"
    Unmarked sql.toList ∧ normalize sql = "select k, \u03BF\u03C2, i\u0307 - $1" ∧
      normalize (normalize sql) = normalize sql := by
  intro sql
  have h : Unmarked sql.toList := by decide +kernel
  have hk : ∀ tag, IsKelvinTag tag → ¬ tag <:+: sql.toList := by
    intro tag ht hi
    obtain ⟨name, -, rfl⟩ := ht
    have hcount := hi.sublist.count_le '$'
    have hone : sql.toList.count '$' = 1 := by decide +kernel
    simp [hone] at hcount
  have hlower : lowercase sql = "select k, \u03BF\u03C2, i\u0307 - $1" := by decide +kernel
  exact ⟨h, (normalize_normalize h).1.trans hlower, (normalize_normalize h).2.mpr hk⟩

/-- The second pass takes away the tag that the first one makes. -/
theorem normalize_kelvin_tag :
    Unmarked "$\u212A$".toList ∧ normalize "$\u212A$" = "$k$" ∧ normalize (normalize "$\u212A$") = " " := by
  decide +kernel

end MigrationLint.Sql
