import Mathlib.Data.List.Basic
import MigrationLint.Json.Printer
import MigrationLint.Json.Reader

/-!
# JSON strings and numbers

A string has many spellings: a character may stand as it is, as an escape of one letter, or as one or two code
units. All of them are read as the characters that they stand for, and the text behind the closing quote is left
(`quoted?_spelled`). A number is read where no more of a number stands behind it (`number?_spelled`).
-/

namespace MigrationLint.Json

/-! ## Parts of a string -/

/-- The letters of escapes, each with its character. -/
def escapeLetters : List (Char × Char) :=
  [('\x22', '\x22'), ('\\', '\\'), ('/', '/'), ('b', '\x08'), ('f', '\x0c'), ('n', '\n'), ('r', '\r'), ('t', '\t')]

/-- The digit of a number below sixteen, with a letter of either case. -/
def IsHexDigit (c : Char) (n : Nat) : Prop :=
  "0123456789abcdef".toList[n]? = some c ∨ "0123456789ABCDEF".toList[n]? = some c

/-- The four digits of a code unit. -/
inductive IsUnit : List Char → Nat → Prop
  | digits {a b c d : Char} {w x y z : Nat} :
      IsHexDigit a w → IsHexDigit b x → IsHexDigit c y → IsHexDigit d z →
        IsUnit [a, b, c, d] (((w * 16 + x) * 16 + y) * 16 + z)

/-- The parts of a string and the text between its quotes. -/
inductive SpellsGlyphs : List Glyph → List Char → Prop
  | nil : SpellsGlyphs [] []
  | bare {c : Char} {gs : List Glyph} {t : List Char} :
      32 ≤ c.toNat → c ≠ '\x22' → c ≠ '\\' → SpellsGlyphs gs t → SpellsGlyphs (.char c :: gs) (c :: t)
  | letter {e c : Char} {gs : List Glyph} {t : List Char} :
      (e, c) ∈ escapeLetters → SpellsGlyphs gs t → SpellsGlyphs (.char c :: gs) ('\\' :: e :: t)
  | unit {h : List Char} {n : Nat} {gs : List Glyph} {t : List Char} :
      IsUnit h n → SpellsGlyphs gs t → SpellsGlyphs (.unit n :: gs) ('\\' :: 'u' :: (h ++ t))

/-- The characters that parts stand for: a character, its code unit, or the two halves of its pair. -/
inductive Stands : List Glyph → List Char → Prop
  | nil : Stands [] []
  | char {c : Char} {gs : List Glyph} {s : List Char} : Stands gs s → Stands (.char c :: gs) (c :: s)
  | unit {c : Char} {gs : List Glyph} {s : List Char} :
      c.toNat < 0x10000 → Stands gs s → Stands (.unit c.toNat :: gs) (c :: s)
  | pair {c : Char} {gs : List Glyph} {s : List Char} :
      0x10000 ≤ c.toNat → Stands gs s →
        Stands (.unit (0xD800 + (c.toNat - 0x10000) / 0x400) :: .unit (0xDC00 + (c.toNat - 0x10000) % 0x400) :: gs)
          (c :: s)

/-- The text of a string and its spelling with the quotes. Parts that stand for no characters have no text. -/
inductive SpellsText : Option String → List Char → Prop
  | text {gs : List Glyph} {s t : List Char} :
      SpellsGlyphs gs t → Stands gs s → SpellsText (some (.ofList s)) ('\x22' :: (t ++ ['\x22']))
  | none {gs : List Glyph} {t : List Char} :
      SpellsGlyphs gs t → (∀ s, ¬ Stands gs s) → SpellsText none ('\x22' :: (t ++ ['\x22']))

theorem hexValue?_digit {c : Char} {n : Nat} (h : IsHexDigit c n) : hexValue? c = some n := by
  have lower : ∀ i : Fin 16, hexValue? "0123456789abcdef".toList[i] = some i.val := by decide
  have upper : ∀ i : Fin 16, hexValue? "0123456789ABCDEF".toList[i] = some i.val := by decide
  rcases h with h | h
  · obtain ⟨hn, rfl⟩ := List.getElem?_eq_some_iff.mp h
    exact lower ⟨n, hn⟩
  · obtain ⟨hn, rfl⟩ := List.getElem?_eq_some_iff.mp h
    exact upper ⟨n, hn⟩

theorem IsHexDigit.lt {c : Char} {n : Nat} (h : IsHexDigit c n) : n < 16 := by
  rcases h with h | h
  · exact (List.getElem?_eq_some_iff.mp h).choose
  · exact (List.getElem?_eq_some_iff.mp h).choose

theorem IsUnit.lt {h : List Char} {n : Nat} (hn : IsUnit h n) : n < 0x10000 := by
  obtain ⟨ha, hb, hc, hd⟩ := hn
  have := ha.lt
  have := hb.lt
  have := hc.lt
  have := hd.lt
  omega

/-- The parts are read up to the closing quote. -/
theorem glyphs?_spelled {gs : List Glyph} {t : List Char} (h : SpellsGlyphs gs t) (rest : List Char) :
    glyphs? (t ++ '\x22' :: rest) = some (gs, rest) := by
  induction h with
  | nil => rfl
  | @bare c gs t hc hquote hslash _ ih =>
    have hstep : glyphs? (c :: (t ++ '\x22' :: rest)) =
        (glyphs? (t ++ '\x22' :: rest)).map fun r => (.char c :: r.1, r.2) := by
      simp [glyphs?, hslash, Nat.not_lt.mpr hc]
    rw [List.cons_append, hstep, ih]
    rfl
  | @letter e c gs t he _ ih =>
    have hstep : glyphs? ('\\' :: e :: (t ++ '\x22' :: rest)) =
        (glyphs? (t ++ '\x22' :: rest)).map fun r => (.char c :: r.1, r.2) := by
      simp only [escapeLetters, List.mem_cons, Prod.mk.injEq, List.not_mem_nil, or_false] at he
      rcases he with ⟨rfl, rfl⟩ | ⟨rfl, rfl⟩ | ⟨rfl, rfl⟩ | ⟨rfl, rfl⟩ | ⟨rfl, rfl⟩ | ⟨rfl, rfl⟩ | ⟨rfl, rfl⟩ |
        ⟨rfl, rfl⟩ <;> rfl
    rw [List.cons_append, List.cons_append, hstep, ih]
    rfl
  | @unit h n gs t hn _ ih =>
    obtain ⟨ha, hb, hc, hd⟩ := hn
    simp only [List.cons_append, List.nil_append, glyphs?, unit?, hexValue?_digit ha, hexValue?_digit hb,
      hexValue?_digit hc, hexValue?_digit hd, Option.bind_eq_bind, Option.bind_some, ih, Option.map_some]
    congr 4
    omega

theorem SpellsGlyphs.unit_lt {gs : List Glyph} {t : List Char} (h : SpellsGlyphs gs t) :
    ∀ n, .unit n ∈ gs → n < 0x10000 := by
  induction h with
  | nil => simp
  | bare _ _ _ _ ih => simpa using ih
  | letter _ _ ih => simpa using ih
  | unit hn _ ih => simpa using ⟨hn.lt, ih⟩

/-! ## Characters of a string -/

theorem not_half (c : Char) : isHighHalf c.toNat = false ∧ isLowHalf c.toNat = false := by
  have hvalid : c.toNat < 0xD800 ∨ 0xDFFF < c.toNat ∧ c.toNat < 0x110000 := c.valid
  simp only [isHighHalf, isLowHalf, Bool.and_eq_false_iff, decide_eq_false_iff_not]
  omega

theorem toNat_lt (c : Char) : c.toNat < 0x110000 := by
  have hvalid : c.toNat < 0xD800 ∨ 0xDFFF < c.toNat ∧ c.toNat < 0x110000 := c.valid
  omega

theorem join?_stands {gs : List Glyph} {s : List Char} (h : Stands gs s) : join? gs = some s := by
  induction h with
  | nil => rfl
  | char _ ih =>
    rw [join?, ih]
    rfl
  | @unit c gs s hc _ ih =>
    obtain ⟨hhigh, hlow⟩ := not_half c
    unfold join?
    simp [hhigh, hlow, ih, Char.ofNat_toNat]
  | @pair c gs s hc _ ih =>
    have hc' := toNat_lt c
    have hhigh : isHighHalf (0xD800 + (c.toNat - 0x10000) / 0x400) = true := by
      simp only [isHighHalf, Bool.and_eq_true, decide_eq_true_eq]
      omega
    have hlow : isLowHalf (0xDC00 + (c.toNat - 0x10000) % 0x400) = true := by
      simp only [isLowHalf, Bool.and_eq_true, decide_eq_true_eq]
      omega
    have hjoin : 0x10000 + (0xD800 + (c.toNat - 0x10000) / 0x400 - 0xD800) * 0x400 +
        (0xDC00 + (c.toNat - 0x10000) % 0x400 - 0xDC00) = c.toNat := by omega
    unfold join?
    rw [if_pos hhigh]
    dsimp only
    rw [if_pos hlow, ih, hjoin, Char.ofNat_toNat]
    rfl

theorem toNat_ofNat_of_valid {n : Nat} (h : n.isValidChar) : (Char.ofNat n).toNat = n := by
  rw [Char.ofNat, dif_pos h]
  rfl

theorem stands_of_join? {gs : List Glyph} {s : List Char} (hu : ∀ n, .unit n ∈ gs → n < 0x10000)
    (h : join? gs = some s) : Stands gs s := by
  fun_induction join? gs generalizing s with
  | case1 =>
    obtain rfl := Option.some.inj h
    exact .nil
  | case2 c gs ih =>
    obtain ⟨s, hs, rfl⟩ := Option.map_eq_some_iff.mp h
    exact .char (ih (fun n hn => hu n (List.mem_cons_of_mem _ hn)) hs)
  | case3 n hhigh m gs hlow ih =>
    obtain ⟨s, hs, rfl⟩ := Option.map_eq_some_iff.mp h
    simp only [isHighHalf, isLowHalf, Bool.and_eq_true, decide_eq_true_eq] at hhigh hlow
    generalize hv : 0x10000 + (n - 0xD800) * 0x400 + (m - 0xDC00) = v
    have hchar : (Char.ofNat v).toNat = v := toNat_ofNat_of_valid (.inr (by omega))
    have hpair := (ih (fun k hk => hu k (by simp [hk])) hs).pair (c := Char.ofNat v) (by omega)
    have hfirst : 0xD800 + (v - 0x10000) / 0x400 = n := by omega
    have hsecond : 0xDC00 + (v - 0x10000) % 0x400 = m := by omega
    rwa [hchar, hfirst, hsecond] at hpair
  | case7 n gs hhigh hlow ih =>
    obtain ⟨s, hs, rfl⟩ := Option.map_eq_some_iff.mp h
    have hn := hu n List.mem_cons_self
    have hchar : (Char.ofNat n).toNat = n := by
      refine toNat_ofNat_of_valid ?_
      simp only [isHighHalf, isLowHalf, Bool.and_eq_true, decide_eq_true_eq, not_and, Nat.not_lt] at hhigh hlow
      by_cases hn' : n < 0xD800
      · exact .inl hn'
      · exact .inr (by omega)
    have hstands := (ih (fun k hk => hu k (List.mem_cons_of_mem _ hk)) hs).unit (c := Char.ofNat n) (by omega)
    rwa [hchar] at hstands
  | _ => cases h

/-- A string is read, even one that has no text. -/
theorem quoted?_spelled {s : Option String} {u : List Char} (h : SpellsText s u) :
    ∃ t, u = '\x22' :: t ∧ ∀ rest, quoted? (t ++ rest) = some (s, rest) := by
  cases h with
  | @text gs s t ht hs =>
    refine ⟨_, rfl, fun rest => ?_⟩
    rw [List.append_assoc, List.singleton_append, quoted?, glyphs?_spelled ht, Option.map_some, join?_stands hs]
    rfl
  | @none gs t ht hs =>
    have hnone : join? gs = none :=
      Option.eq_none_iff_forall_not_mem.mpr fun s hj => hs s (stands_of_join? ht.unit_lt hj)
    refine ⟨_, rfl, fun rest => ?_⟩
    rw [List.append_assoc, List.singleton_append, quoted?, glyphs?_spelled ht, Option.map_some, hnone]
    rfl

/-! ## Numbers -/

def IsDigits (ds : List Char) : Prop := ds ≠ [] ∧ ∀ c ∈ ds, c.isDigit = true

/-- A zero at the front stands alone. -/
structure IsWhole (ds : List Char) : Prop where
  digits : IsDigits ds
  zero : ds.head? = some '0' → ds = ['0']

inductive IsFraction : List Char → Prop
  | none : IsFraction []
  | digits {ds : List Char} : IsDigits ds → IsFraction ('.' :: ds)

inductive IsExponent : List Char → Prop
  | none : IsExponent []
  | digits {e : Char} {sign ds : List Char} :
      e = 'e' ∨ e = 'E' → sign = [] ∨ sign = ['+'] ∨ sign = ['-'] → IsDigits ds → IsExponent (e :: (sign ++ ds))

/-- The value of a number and its spelling. One with a sign, a fraction or an exponent has no value. -/
inductive SpellsNumber : Option Nat → List Char → Prop
  | natural {ds : List Char} : IsWhole ds → SpellsNumber (some (Nat.ofDigitChars 10 ds 0)) ds
  | broken {ds fraction exponent : List Char} :
      IsWhole ds → IsFraction fraction → IsExponent exponent → fraction ≠ [] ∨ exponent ≠ [] →
        SpellsNumber none (ds ++ (fraction ++ exponent))
  | negative {ds fraction exponent : List Char} :
      IsWhole ds → IsFraction fraction → IsExponent exponent → SpellsNumber none ('-' :: (ds ++ (fraction ++ exponent)))

/-- No more of a number stands at the front. -/
def Ends (s : List Char) : Prop := ∀ c ∈ s.head?, c.isDigit = false ∧ c ≠ '.' ∧ c ≠ 'e' ∧ c ≠ 'E'

theorem digits?_append {ds : List Char} (hds : IsDigits ds) {s : List Char} (hs : ∀ c ∈ s.head?, c.isDigit = false) :
    digits? (ds ++ s) = some (ds, s) := by
  have hstop : s.takeWhile Char.isDigit = [] := by
    cases s with
    | nil => rfl
    | cons c s => exact List.takeWhile_cons_of_neg (by simp [hs c rfl])
  have hrest : s.dropWhile Char.isDigit = s := by
    cases s with
    | nil => rfl
    | cons c s => exact List.dropWhile_cons_of_neg (by simp [hs c rfl])
  simp [digits?, List.takeWhile_append_of_pos hds.2, List.dropWhile_append_of_pos hds.2, hstop, hrest, hds.1]

theorem isExponent_head {exponent : List Char} (h : IsExponent exponent) {s : List Char} (hs : Ends s) :
    ∀ c ∈ (exponent ++ s).head?, c.isDigit = false ∧ c ≠ '.' := by
  cases h with
  | none => exact fun c hc => ⟨(hs c hc).1, (hs c hc).2.1⟩
  | digits he _ _ =>
    intro c hc
    cases hc
    rcases he with rfl | rfl <;> decide

theorem isFraction_head {fraction exponent : List Char} (hf : IsFraction fraction) (he : IsExponent exponent)
    {s : List Char} (hs : Ends s) : ∀ c ∈ (fraction ++ (exponent ++ s)).head?, c.isDigit = false := by
  cases hf with
  | none => exact fun c hc => (isExponent_head he hs c hc).1
  | digits _ =>
    intro c hc
    cases hc
    rfl

theorem fraction?_append {fraction : List Char} (h : IsFraction fraction) {s : List Char}
    (hs : ∀ c ∈ s.head?, c.isDigit = false ∧ c ≠ '.') : fraction? (fraction ++ s) = some (!fraction.isEmpty, s) := by
  cases h with
  | none =>
    cases s with
    | nil => rfl
    | cons c s =>
      rw [List.nil_append, fraction?]
      · rfl
      · intro t e
        cases e
        exact (hs _ rfl).2 rfl
  | digits hds =>
    rw [List.cons_append, fraction?, digits?_append hds fun c hc => (hs c hc).1]
    rfl

theorem exponent?_signed {e sign : Char} (he : e = 'e' ∨ e = 'E') (hsign : sign = '+' ∨ sign = '-') (s : List Char) :
    exponent? (e :: sign :: s) = (digits? s).map fun r => (true, r.2) := by
  rcases hsign with rfl | rfl
  · exact if_pos he
  · exact if_pos he

theorem exponent?_bare {e d : Char} (he : e = 'e' ∨ e = 'E') (hd : d.isDigit = true) (s : List Char) :
    exponent? (e :: d :: s) = (digits? (d :: s)).map fun r => (true, r.2) := by
  refine (if_pos he).trans ?_
  split
  · rename_i h
    cases h
    cases hd
  · rename_i h
    cases h
    cases hd
  · rfl

theorem exponent?_append {exponent : List Char} (h : IsExponent exponent) {s : List Char} (hs : Ends s) :
    exponent? (exponent ++ s) = some (!exponent.isEmpty, s) := by
  cases h with
  | none =>
    cases s with
    | nil => rfl
    | cons c s =>
      refine if_neg ?_
      rintro (rfl | rfl)
      · exact (hs _ rfl).2.2.1 rfl
      · exact (hs _ rfl).2.2.2 rfl
  | @digits e sign ds he hsign hds =>
    have hread : digits? (ds ++ s) = some (ds, s) := digits?_append hds fun c hc => (hs c hc).1
    rcases hsign with rfl | rfl | rfl
    · obtain ⟨d, ds', rfl⟩ := List.exists_cons_of_ne_nil hds.1
      simp only [List.nil_append, List.cons_append] at hread ⊢
      rw [exponent?_bare he (hds.2 d List.mem_cons_self), hread]
      rfl
    · simp only [List.nil_append, List.cons_append]
      rw [exponent?_signed he (.inl rfl), hread]
      rfl
    · simp only [List.nil_append, List.cons_append]
      rw [exponent?_signed he (.inr rfl), hread]
      rfl

theorem unsigned?_append {ds fraction exponent s : List Char} (hds : IsWhole ds) (hf : IsFraction fraction)
    (he : IsExponent exponent) (hs : Ends s) :
    unsigned? (ds ++ (fraction ++ (exponent ++ s))) =
      some (if !fraction.isEmpty || !exponent.isEmpty then none else some (Nat.ofDigitChars 10 ds 0), s) := by
  have hzero : ¬ (ds.head? = some '0' ∧ ds ≠ ['0']) := fun h => h.2 (hds.zero h.1)
  simp [unsigned?, digits?_append hds.digits (isFraction_head hf he hs), hzero,
    fraction?_append hf (isExponent_head he hs), exponent?_append he hs]

theorem number?_of_ne {c : Char} (hc : c ≠ '-') (s : List Char) : number? (c :: s) = unsigned? (c :: s) := by
  rw [number?]
  intro t e
  exact hc (List.cons.inj e).1

theorem IsWhole.head_ne_minus {ds : List Char} (h : IsWhole ds) (s : List Char) :
    ∃ c t, ds ++ s = c :: t ∧ c ≠ '-' := by
  obtain ⟨c, t, rfl⟩ := List.exists_cons_of_ne_nil h.digits.1
  refine ⟨c, t ++ s, rfl, ?_⟩
  rintro rfl
  cases h.digits.2 '-' List.mem_cons_self

/-- A number is read, even one that has no value. -/
theorem number?_spelled {n : Option Nat} {t : List Char} (h : SpellsNumber n t) {s : List Char} (hs : Ends s) :
    number? (t ++ s) = some (n, s) := by
  cases h with
  | @natural ds hds =>
    obtain ⟨c, t, ht, hc⟩ := hds.head_ne_minus s
    rw [ht, number?_of_ne hc, ← ht]
    exact unsigned?_append hds .none .none hs
  | @broken ds fraction exponent hds hf he hne =>
    obtain ⟨c, t, ht, hc⟩ := hds.head_ne_minus (fraction ++ (exponent ++ s))
    have hflags : (!fraction.isEmpty || !exponent.isEmpty) = true := by simpa using hne
    rw [List.append_assoc, List.append_assoc, ht, number?_of_ne hc, ← ht, unsigned?_append hds hf he hs, if_pos hflags]
  | @negative ds fraction exponent hds hf he =>
    rw [List.cons_append, List.append_assoc, List.append_assoc, number?, unsigned?_append hds hf he hs]
    rfl

/-! ## Writing -/

theorem isHexDigit_hexDigit : ∀ n < 16, IsHexDigit (hexDigit n) n := by unfold IsHexDigit; decide

/-- The part that a character is written as. A control character without a letter is a code unit. -/
def glyph (c : Char) : Glyph :=
  if c.toNat < 32 ∧ c ∉ ['\x08', '\x0c', '\n', '\r', '\t'] then .unit c.toNat else .char c

theorem spellsGlyphs_escape (c : Char) {gs : List Glyph} {t : List Char} (h : SpellsGlyphs gs t) :
    SpellsGlyphs (glyph c :: gs) (escape c ++ t) := by
  by_cases hletter : c ∈ ['\x22', '\\', '\x08', '\x0c', '\n', '\r', '\t']
  · simp only [List.mem_cons, List.not_mem_nil, or_false] at hletter
    rcases hletter with rfl | rfl | rfl | rfl | rfl | rfl | rfl <;> exact .letter (by decide) h
  simp only [List.mem_cons, List.not_mem_nil, or_false, not_or] at hletter
  obtain ⟨hquote, hslash, h₁, h₂, h₃, h₄, h₅⟩ := hletter
  by_cases hcontrol : c.toNat < 32
  · have hunit := IsUnit.digits (isHexDigit_hexDigit 0 (by decide)) (isHexDigit_hexDigit 0 (by decide))
      (isHexDigit_hexDigit (c.toNat / 16) (by omega)) (isHexDigit_hexDigit (c.toNat % 16) (by omega))
    have hvalue : ((0 * 16 + 0) * 16 + c.toNat / 16) * 16 + c.toNat % 16 = c.toNat := by omega
    have hspelled := h.unit hunit
    have hzero : hexDigit 0 = '0' := rfl
    rw [hvalue, hzero] at hspelled
    simpa [escape, glyph, hquote, hslash, h₁, h₂, h₃, h₄, h₅, hcontrol] using hspelled
  · have hspelled := h.bare (Nat.not_lt.mp hcontrol) hquote hslash
    simpa [escape, glyph, hquote, hslash, h₁, h₂, h₃, h₄, h₅, hcontrol] using hspelled

theorem spellsGlyphs_escapes (s : List Char) : SpellsGlyphs (s.map glyph) (s.flatMap escape) := by
  induction s with
  | nil => exact .nil
  | cons c s ih => exact spellsGlyphs_escape c ih

theorem stands_glyphs (s : List Char) : Stands (s.map glyph) s := by
  induction s with
  | nil => exact .nil
  | cons c s ih =>
    rw [List.map_cons, glyph]
    split
    · exact ih.unit (by omega)
    · exact ih.char

/-- A string is written in one of its spellings, even one that has no text. -/
theorem spellsText_stringText (s : Option String) : SpellsText s (stringText s) := by
  cases s with
  | none =>
    have hunit : IsUnit ['d', '8', '0', '0'] 0xD800 :=
      .digits (w := 13) (x := 8) (y := 0) (z := 0) (by unfold IsHexDigit; decide) (by unfold IsHexDigit; decide)
        (by unfold IsHexDigit; decide) (by unfold IsHexDigit; decide)
    have hnone : join? [.unit 0xD800] = none := by simp [join?, isHighHalf]
    refine .none (.unit hunit .nil) fun s hs => ?_
    rw [join?_stands hs] at hnone
    cases hnone
  | some s =>
    have htext := SpellsText.text (spellsGlyphs_escapes s.toList) (stands_glyphs s.toList)
    rwa [String.ofList_toList] at htext

theorem isDigits_toDigits (n : Nat) : IsDigits (Nat.toDigits 10 n) :=
  ⟨Nat.toDigits_ne_nil, fun _ => Nat.isDigit_of_mem_toDigits (by decide) (by decide)⟩

theorem isWhole_toDigits (n : Nat) : IsWhole (Nat.toDigits 10 n) := by
  refine ⟨isDigits_toDigits n, fun h => ?_⟩
  induction n using Nat.strongRecOn with
  | ind n ih =>
    by_cases hn : n < 10
    · rw [Nat.toDigits_of_lt_base hn] at h ⊢
      rw [Option.some.inj h]
    · rw [Nat.toDigits_of_base_le (by decide) (by omega),
        List.head?_append_of_ne_nil _ Nat.toDigits_ne_nil] at h
      have hzero : n / 10 = 0 := by
        rw [← Nat.ofDigitChars_ten_toDigits (n := n / 10), ih (n / 10) (by omega) h]
        rfl
      omega

/-- A number is written in one of its spellings, even one that has no value. -/
theorem spellsNumber_naturalText (n : Option Nat) : SpellsNumber n (naturalText n) := by
  cases n with
  | none => exact .negative (isWhole_toDigits 1) .none .none
  | some n =>
    have hnatural := SpellsNumber.natural (isWhole_toDigits n)
    rwa [Nat.ofDigitChars_ten_toDigits] at hnatural

end MigrationLint.Json
