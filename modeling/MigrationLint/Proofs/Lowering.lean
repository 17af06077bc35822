import MigrationLint.Proofs.Characters
import MigrationLint.Text.Lower

/-!
# Lowercase text by text

The form of a sigma depends on the characters around it, but never across a character that is neither
cased nor passed over (`lower_break`). The case of ASCII letters does not matter to it at all
(`lower_toLower`), and no character beyond ASCII becomes an ASCII one but `i` and `k` (`mem_lower_iff`).
-/

namespace MigrationLint.Text

/-- A character that ends the context of a sigma. -/
def Breaks (c : Char) : Prop := isCased c = false ∧ isCaseIgnorable c = false

instance (c : Char) : Decidable (Breaks c) := by unfold Breaks; infer_instance

theorem Breaks.ne_sigma {c : Char} (h : Breaks c) : c ≠ '\u03A3' := by
  intro e
  subst e
  exact absurd h.1 (by decide +kernel)

def blanks : List Char :=
  ['\t', '\n', '\x0B', '\x0C', '\r', ' ', '\u0085', '\u00A0', '\u1680', '\u2000', '\u2001', '\u2002', '\u2003',
   '\u2004', '\u2005', '\u2006', '\u2007', '\u2008', '\u2009', '\u200A', '\u2028', '\u2029', '\u202F', '\u205F',
   '\u3000']

theorem mem_blanks {c : Char} (h : isBlank c = true) : c ∈ blanks := by
  have hn : c.toNat ∈ blanks.map Char.toNat := by
    simp only [isBlank, blankRanges, Ranges.has, List.any_cons, List.any_nil, Bool.or_eq_true, Bool.and_eq_true,
      decide_eq_true_eq, Bool.false_eq_true, or_false] at h
    simp only [blanks, List.map_cons, List.map_nil, Char.reduceToNat, List.mem_cons, List.not_mem_nil, or_false]
    omega
  obtain ⟨d, hd, e⟩ := List.mem_map.mp hn
  rwa [← Char.ofNat_toNat c, ← e, Char.ofNat_toNat]

theorem breaks_of_isBlank {c : Char} (h : isBlank c = true) : Breaks c :=
  forall_of_all (p := Breaks) (by decide +kernel) c (mem_blanks h)

theorem lowerChar_of_isBlank {c : Char} (h : isBlank c = true) : lowerChar c = [c] :=
  forall_of_all (p := fun c => lowerChar c = [c]) (by decide +kernel) c (mem_blanks h)

/-! ## Texts in a row -/

theorem casedNext_break {c : Char} (h : Breaks c) (s t : List Char) : casedNext (s ++ c :: t) = casedNext s := by
  induction s with
  | nil => simp [casedNext, h.1, h.2]
  | cons d s ih => rw [List.cons_append, casedNext, casedNext, ih]

theorem lowerAfter_break {c : Char} (h : Breaks c) (cased : Bool) (s t : List Char) :
    lowerAfter cased (s ++ c :: t) = lowerAfter cased s ++ (lowerChar c ++ lower t) := by
  induction s generalizing cased with
  | nil => simp [lowerAfter, lower, h.ne_sigma, h.1, h.2]
  | cons d s ih =>
    rw [List.cons_append, lowerAfter, lowerAfter, ih, casedNext_break h, List.append_assoc]

theorem lower_break {c : Char} (h : Breaks c) (s t : List Char) :
    lower (s ++ c :: t) = lower s ++ (lowerChar c ++ lower t) := lowerAfter_break h false s t

theorem lower_cons_break {c : Char} (h : Breaks c) (t : List Char) : lower (c :: t) = lowerChar c ++ lower t :=
  lower_break h [] t

theorem lower_append_of_head {s t : List Char} (h : ∀ c ∈ t.head?, Breaks c) :
    lower (s ++ t) = lower s ++ lower t := by
  cases t with
  | nil => simp [lower, lowerAfter]
  | cons c t => rw [lower_break (h c rfl), lower_cons_break (h c rfl)]

theorem lower_append_of_last {s t : List Char} (h : ∀ c ∈ s.getLast?, Breaks c) :
    lower (s ++ t) = lower s ++ lower t := by
  rcases List.eq_nil_or_concat s with rfl | ⟨s, c, rfl⟩
  · rfl
  · have hc : Breaks c := h c (by simp)
    have hs : lower (s ++ [c]) = lower s ++ lowerChar c := by
      rw [lower_break hc]
      simp [lower, lowerAfter]
    rw [List.concat_eq_append, hs, List.append_assoc, List.singleton_append, lower_break hc, List.append_assoc]

theorem getLast?_lower {s : List Char} (h : ∀ c ∈ s.getLast?, Breaks c ∧ lowerChar c = [c]) :
    (lower s).getLast? = s.getLast? := by
  rcases List.eq_nil_or_concat s with rfl | ⟨s, c, rfl⟩
  · rfl
  · obtain ⟨hb, hc⟩ := h c (by simp)
    rw [List.concat_eq_append, lower_break hb, hc]
    simp [lower, lowerAfter]

/-! ## ASCII -/

theorem forall_ascii {P : Char → Prop} (h : ∀ n < 128, P (.ofNat n)) {c : Char} (hc : c.toNat < 128) : P c := by
  rw [← Char.ofNat_toNat c]
  exact h c.toNat hc

theorem lowerChar_ascii {c : Char} (h : c.toNat < 128) : lowerChar c = [c.toLower] := if_pos h

theorem ne_sigma_of_lt {c : Char} (h : c.toNat < 128) : c ≠ '\u03A3' := by
  intro e
  subst e
  exact absurd h (by decide)

/-- What stands behind an ASCII text knows of it only whether a cased character stands before. -/
theorem lowerAfter_ascii {s : List Char} (h : ∀ c ∈ s, c.toNat < 128) (cased : Bool) (t : List Char) :
    ∃ cased', lowerAfter cased (s ++ t) = s.map Char.toLower ++ lowerAfter cased' t := by
  induction s generalizing cased with
  | nil => exact ⟨cased, rfl⟩
  | cons c s ih =>
    rw [List.forall_mem_cons] at h
    obtain ⟨cased', ht⟩ := ih h.2 (if isCaseIgnorable c then cased else isCased c)
    refine ⟨cased', ?_⟩
    rw [List.cons_append, lowerAfter, if_neg (ne_sigma_of_lt h.1), lowerChar_ascii h.1, ht]
    rfl

theorem toLower_eq_self {c : Char} (h : c.isUpper = false) : c.toLower = c := dif_neg (of_decide_eq_false h)

theorem toLower_of_ge {c : Char} (h : 128 ≤ c.toNat) : c.toLower = c :=
  toLower_eq_self <| Bool.eq_false_iff.mpr fun hu => by
    have := bounds_of_isAlphanum (isAlphanum_iff.mpr (.inl (.inl hu)))
    omega

theorem toLower_of_isIdentChar {c : Char} (h : Sql.isIdentChar c = true) : c.toLower = c :=
  forall_ascii (P := fun c => Sql.isIdentChar c = true → c.toLower = c) (by decide) (Sql.lt_of_isIdentChar h) h

section
variable (c : Char)

theorem lowerChar_toLower : lowerChar c.toLower = lowerChar c := by
  rcases Nat.lt_or_ge c.toNat 128 with h | h
  · exact forall_ascii (P := fun c => lowerChar c.toLower = lowerChar c) (by decide) h
  · rw [toLower_of_ge h]

theorem isCased_toLower : isCased c.toLower = isCased c := by
  rcases Nat.lt_or_ge c.toNat 128 with h | h
  · exact forall_ascii (P := fun c => isCased c.toLower = isCased c) (by decide) h
  · rw [toLower_of_ge h]

theorem isCaseIgnorable_toLower : isCaseIgnorable c.toLower = isCaseIgnorable c := by
  rcases Nat.lt_or_ge c.toNat 128 with h | h
  · exact forall_ascii (P := fun c => isCaseIgnorable c.toLower = isCaseIgnorable c) (by decide) h
  · rw [toLower_of_ge h]

theorem toLower_eq_sigma_iff : c.toLower = '\u03A3' ↔ c = '\u03A3' := by
  rcases Nat.lt_or_ge c.toNat 128 with h | h
  · exact forall_ascii (P := fun c => c.toLower = '\u03A3' ↔ c = '\u03A3') (by decide) h
  · rw [toLower_of_ge h]

end

theorem toLower_eq_iff {c d : Char} (hd : d.isAlpha = false) : c.toLower = d ↔ c = d := by
  cases hu : c.isUpper with
  | false => rw [toLower_eq_self hu]
  | true =>
    have hlt : c.toNat < 128 := by
      have := bounds_of_isAlphanum (isAlphanum_iff.mpr (.inl (.inl hu)))
      omega
    have hl : c.isUpper = true → c.toLower.isAlpha = true ∧ c.isAlpha = true :=
      forall_ascii (P := fun c => c.isUpper = true → c.toLower.isAlpha = true ∧ c.isAlpha = true) (by decide) hlt
    refine iff_of_false ?_ ?_ <;>
      · intro e
        subst e
        simp [hl hu] at hd

theorem casedNext_toLower (s : List Char) : casedNext (s.map Char.toLower) = casedNext s := by
  induction s with
  | nil => rfl
  | cons c s ih => rw [List.map_cons, casedNext, casedNext, ih, isCaseIgnorable_toLower, isCased_toLower]

theorem lowerAfter_toLower (cased : Bool) (s : List Char) :
    lowerAfter cased (s.map Char.toLower) = lowerAfter cased s := by
  induction s generalizing cased with
  | nil => rfl
  | cons c s ih =>
    simp only [List.map_cons, lowerAfter, ih, casedNext_toLower, isCaseIgnorable_toLower, isCased_toLower,
      lowerChar_toLower, toLower_eq_sigma_iff]

theorem lower_toLower (s : List Char) : lower (s.map Char.toLower) = lower s := lowerAfter_toLower false s

/-! ## Characters beyond ASCII -/

/-- The row gives `n` a lowercase form. -/
def RowHas (row : Nat × Nat × Nat × Nat) (n : Nat) : Prop :=
  row.1 ≤ n ∧ n ≤ row.2.1 ∧ (n - row.1) % row.2.2.1 = 0

theorem shiftBy_cases (n : Nat) (rows : List (Nat × Nat × Nat × Nat)) :
    (∃ row ∈ rows, RowHas row n ∧ shiftBy n rows = row.2.2.2 + (n - row.1)) ∨
      (∀ row ∈ rows, ¬ RowHas row n) ∧ shiftBy n rows = n := by
  induction rows with
  | nil => exact .inr ⟨by simp, rfl⟩
  | cons row rows ih =>
    by_cases h : RowHas row n
    · exact .inl ⟨row, List.mem_cons_self, h, if_pos h⟩
    · have hs : shiftBy n (row :: rows) = shiftBy n rows := if_neg h
      rw [hs, List.forall_mem_cons]
      rcases ih with ⟨row', hr, ih⟩ | ⟨hn, ih⟩
      · exact .inl ⟨row', List.mem_cons_of_mem _ hr, ih⟩
      · exact .inr ⟨⟨h, hn⟩, ih⟩

/-- Where a row meets the forms of another, both go on by twos, and one by odd and one by even numbers. -/
theorem lowerRows_apart : (lowerRows.all fun row => lowerRows.all fun row' =>
    Nat.blt (row.2.2.2 + (row.2.1 - row.1)) row'.1 || Nat.blt row'.2.1 row.2.2.2 ||
      (Nat.beq row.1 row.2.1 || Nat.beq row.2.2.1 2) && Nat.beq row'.2.2.1 2 &&
        !Nat.beq (row.2.2.2 % 2) (row'.1 % 2)) = true := by decide +kernel

theorem not_rowHas_form {row row' : Nat × Nat × Nat × Nat} (hr : row ∈ lowerRows) (hr' : row' ∈ lowerRows) {n : Nat}
    (h : RowHas row n) : ¬ RowHas row' (row.2.2.2 + (n - row.1)) := by
  have hapart := List.all_eq_true.mp (List.all_eq_true.mp lowerRows_apart row hr) row' hr'
  obtain ⟨first, last, step, low⟩ := row
  obtain ⟨first', last', step', low'⟩ := row'
  simp only [Bool.or_eq_true, Bool.and_eq_true, Bool.not_eq_true', ← Bool.not_eq_true, Nat.blt_eq, Nat.beq_eq]
    at hapart
  simp only [RowHas] at h ⊢
  rintro ⟨h₁, h₂, h₃⟩
  rcases hapart with (hapart | hapart) | ⟨⟨rfl | rfl, rfl⟩, hapart⟩ <;> omega

theorem shiftBy_shiftBy (n : Nat) : shiftBy (shiftBy n lowerRows) lowerRows = shiftBy n lowerRows := by
  rcases shiftBy_cases n lowerRows with ⟨row, hr, hn, he⟩ | ⟨-, he⟩
  · rw [he]
    rcases shiftBy_cases (row.2.2.2 + (n - row.1)) lowerRows with ⟨row', hr', hn', -⟩ | ⟨-, he'⟩
    · exact absurd hn' (not_rowHas_form hr hr' hn)
    · exact he'
  · rw [he, he]

theorem shiftBy_ge {n : Nat} (hn : 128 ≤ n) :
    128 ≤ shiftBy n lowerRows ∨ n = '\u212A'.toNat ∧ shiftBy n lowerRows = 'k'.toNat := by
  have rows : ∀ row ∈ lowerRows,
      128 ≤ row.2.2.2 ∨ row.1 = '\u212A'.toNat ∧ row.2.1 = '\u212A'.toNat ∧ row.2.2.2 = 'k'.toNat := by
    decide +kernel
  rcases shiftBy_cases n lowerRows with ⟨row, hr, ⟨h₁, h₂, -⟩, he⟩ | ⟨-, he⟩
  · have := rows row hr
    omega
  · omega

theorem lowerChar_of_ge {c : Char} (hc : 128 ≤ c.toNat) (hdot : c ≠ '\u0130') :
    lowerChar c = [Char.ofNat (shiftBy c.toNat lowerRows)] := by
  rw [lowerChar, if_neg (by omega), if_neg hdot]

theorem toNat_ofNat_or (n : Nat) : (Char.ofNat n).toNat = n ∨ Char.ofNat n = '\x00' := by
  by_cases hv : n.isValidChar
  · exact .inl (by rw [Char.ofNat, dif_pos hv]; rfl)
  · exact .inr (by rw [Char.ofNat, dif_neg hv]; rfl)

theorem ge_of_mem_lowerChar {c d : Char} (hc : 128 ≤ c.toNat) (hd : d ∈ lowerChar c) :
    128 ≤ d.toNat ∨ c = '\u0130' ∧ d = 'i' ∨ c = '\u212A' ∧ d = 'k' ∨ d = '\x00' := by
  by_cases hdot : c = '\u0130'
  · subst hdot
    have hd : d = 'i' ∨ d = '\u0307' := by simpa [lowerChar] using hd
    rcases hd with rfl | rfl
    · exact .inr (.inl ⟨rfl, rfl⟩)
    · exact .inl (by decide)
  · rw [lowerChar_of_ge hc hdot, List.mem_singleton] at hd
    subst hd
    rcases toNat_ofNat_or (shiftBy c.toNat lowerRows) with hv | hv
    · rw [hv]
      rcases shiftBy_ge hc with h | ⟨hk, h⟩
      · exact .inl h
      · refine .inr (.inr (.inl ⟨?_, ?_⟩))
        · rw [← Char.ofNat_toNat c, hk, Char.ofNat_toNat]
        · rw [h, Char.ofNat_toNat]
    · exact .inr (.inr (.inr hv))

/-- No other character has a lowercase of ASCII but a letter or the null character. -/
theorem mem_lowerChar_iff {c d : Char} (hd : d.toNat < 128) (ha : d.isAlpha = false) (h0 : d ≠ '\x00') :
    d ∈ lowerChar c ↔ c = d := by
  rcases Nat.lt_or_ge c.toNat 128 with hc | hc
  · rw [lowerChar_ascii hc, List.mem_singleton, eq_comm, toLower_eq_iff ha]
  · refine iff_of_false (fun hm => ?_) (fun e => ?_)
    · rcases ge_of_mem_lowerChar hc hm with h | ⟨-, rfl⟩ | ⟨-, rfl⟩ | rfl
      · omega
      · exact absurd ha (by decide)
      · exact absurd ha (by decide)
      · exact h0 rfl
    · subst e
      omega

theorem mem_lowerAfter_iff {d : Char} (hd : d.toNat < 128) (ha : d.isAlpha = false) (h0 : d ≠ '\x00')
    (cased : Bool) (s : List Char) : d ∈ lowerAfter cased s ↔ d ∈ s := by
  induction s generalizing cased with
  | nil => rfl
  | cons c s ih =>
    rw [lowerAfter, List.mem_append, List.mem_cons]
    refine or_congr ?_ (ih _)
    by_cases hc : c = '\u03A3'
    · subst hc
      refine iff_of_false (fun hm => ?_) (fun e => ?_)
      · rw [if_pos rfl, List.mem_singleton] at hm
        subst hm
        revert hd
        split <;> decide
      · subst e
        exact absurd hd (by decide)
    · rw [if_neg hc, mem_lowerChar_iff hd ha h0, eq_comm]

theorem mem_lower_iff {d : Char} (hd : d.toNat < 128) (ha : d.isAlpha = false) (h0 : d ≠ '\x00') {s : List Char} :
    d ∈ lower s ↔ d ∈ s := mem_lowerAfter_iff hd ha h0 false s

end MigrationLint.Text
