import MigrationLint.Proofs.Bytes
import MigrationLint.Proofs.Inert
import MigrationLint.Sql.ByteScan
import MigrationLint.Sql.Normal

/-!
# Stripping by bytes and by characters

In each turn the loop over the bytes does what `Region.read` does with the characters behind the index
(`Region.Proper.readsBytes`). The index stays behind a whole character in every turn, so no cut fails, and it
grows to the end of the text, where the loop has left what stripping leaves (`StandsAt.scan_eq`).
-/

namespace MigrationLint.Sql

open Text
open Environment (encode encode_append)

/-! ## Tags -/

theorem isTagByte_ofNat : ∀ n < 128, isTagByte (.ofNat n) = isTagChar (.ofNat n) := by decide +kernel

theorem lt_of_isTagByte {b : UInt8} (h : isTagByte b = true) : b.toNat < 128 := by
  simp [isTagByte, UInt8.le_iff_toNat_le, ← UInt8.toNat_inj] at h
  omega

theorem isTagByte_char {c : Char} (h : c.toNat < 128) : isTagByte (.ofNat c.toNat) = isTagChar c := by
  rw [isTagByte_ofNat c.toNat h, Char.ofNat_toNat]

/-- A byte of a name at the front of a code is all of the code. -/
theorem isTagChar_of_byte {c : Char} {b : UInt8} {x : Bytes} (h : String.utf8EncodeChar c = b :: x)
    (hb : isTagByte b = true) : isTagChar c = true := by
  have hlt := lt_of_isTagByte hb
  have hcode : encode [Char.ofNat b.toNat] = [b] := by
    rw [encode_cons, utf8EncodeChar_ofNat _ hlt, UInt8.ofNat_toNat]
    rfl
  have hpre : encode [Char.ofNat b.toNat] <+: encode [c] := by
    rw [hcode, encode_cons, h]
    exact ⟨x ++ encode [], rfl⟩
  obtain ⟨rfl, -⟩ := List.cons_prefix_cons.mp (encode_prefix_iff.mp hpre)
  rw [← isTagByte_ofNat _ hlt, UInt8.ofNat_toNat, hb]

theorem takeWhile_encode (s : List Char) :
    (encode s).takeWhile isTagByte = encode (s.takeWhile isTagChar) := by
  induction s with
  | nil => rfl
  | cons c s ih =>
    rw [encode_cons]
    by_cases hc : isTagChar c = true
    · have hlt := lt_of_isTagChar hc
      have hbyte := isTagByte_char hlt
      rw [hc] at hbyte
      rw [List.takeWhile_cons_of_pos hc, encode_cons, utf8EncodeChar_ascii hlt]
      simp [hbyte, ih]
    · obtain ⟨b, x, hb⟩ := List.exists_cons_of_ne_nil (String.utf8EncodeChar_ne_nil (c := c))
      have hbyte : ¬ isTagByte b = true := fun h => hc (isTagChar_of_byte hb h)
      rw [List.takeWhile_cons_of_neg hc, hb]
      simp [hbyte, encode]

theorem startsWith_dollar (s : List Char) : startsWith (encode s) "$" = true ↔ s.head? = some '$' := by
  rw [startsWith_encode]
  cases s with
  | nil => simp
  | cons c s => simp [eq_comm (a := c)]

theorem dollarTag_encode (s : List Char) : dollarTag (encode s) = some ((tagAt s).map encode) := by
  rw [dollarTag]
  simp only [startsWith_dollar]
  cases s with
  | nil => rfl
  | cons c s =>
    by_cases hc : c = '$'
    · subst hc
      have hbody : (encode ('$' :: s)).drop 1 = encode s := rfl
      have hcut := sliceFrom?_encode (s.takeWhile isTagChar) (s.dropWhile isTagChar)
      rw [List.takeWhile_append_dropWhile] at hcut
      rw [List.head?_cons, if_pos rfl, hbody, takeWhile_encode, hcut, Option.bind_some]
      simp only [startsWith_dollar, tagAt, true_and]
      by_cases hd : (s.dropWhile isTagChar).head? = some '$'
      · obtain ⟨u, hu⟩ := List.head?_eq_some_iff.mp hd
        have hs : '$' :: s = ('$' :: s.takeWhile isTagChar ++ ['$']) ++ u := by
          have := List.takeWhile_append_dropWhile (p := isTagChar) (l := s)
          rw [hu] at this
          simp [this]
        have hlength : (encode (s.takeWhile isTagChar)).length + 2 =
            (encode ('$' :: s.takeWhile isTagChar ++ ['$'])).length := by
          rw [encode_append, List.length_append, length_encode_cons, length_encode_cons, show '$'.utf8Size = 1 from rfl]
          simp [encode]
          omega
        rw [if_pos hd, if_pos hd, hlength, hs, sliceTo?_encode]
        rfl
      · rw [if_neg hd, if_neg hd]
        rfl
    · rw [if_neg (by simpa using hc), tagAt, if_neg fun h => hc h.1]
      rfl

theorem IsTag.ne_nil {tag : List Char} (h : IsTag tag) : tag ≠ [] := by
  obtain ⟨s, rfl⟩ := h.cons
  simp

theorem IsTag.lt {tag : List Char} (h : IsTag tag) : ∀ c ∈ tag, c.toNat < 128 := by
  obtain ⟨name, hname, rfl⟩ := h
  intro c hc
  by_cases hd : c = '$'
  · subst hd
    decide
  · exact lt_of_isTagChar (hname c (by simpa [hd] using hc))

/-! ## One turn -/

def Region.mode : Region → Mode
  | plain => .plain
  | line => .line
  | block => .block
  | literal => .literal
  | quoted => .quoted
  | body tag => .body (Environment.encode tag)

/-- The state behind what a reading takes from the front of the text `t`. -/
def Scan.past (st : Scan) (t : List Char) (x : Reading) : Scan :=
  ⟨st.index + (encode (t.take (x.skip + 1))).length, x.region.mode, st.out ++ .ofList x.out⟩

theorem startsWith_pair {a b c : Char} {s : List Char} {m : String} (h : m.toList = [a, b]) :
    startsWith (encode (c :: s)) m = true ↔ c = a ∧ s.head? = some b := by
  rw [startsWith_encode, h]
  cases s with
  | nil => simp
  | cons d s => simp [eq_comm (a := c), eq_comm (a := d)]

section
variable {st : Scan} {c : Char} {s : List Char}

theorem past_one (r : Region) (o : List Char) :
    st.past (c :: s) ⟨o, r, 0⟩ = ⟨st.index + c.utf8Size, r.mode, st.out ++ .ofList o⟩ := by
  simp [Scan.past, encode]

theorem past_mark {m : List Char} (hm : m <+: c :: s) (hne : m ≠ []) (hlt : ∀ d ∈ m, d.toNat < 128) (r : Region)
    (o : List Char) :
    st.past (c :: s) ⟨o, r, m.length - 1⟩ = ⟨st.index + m.length, r.mode, st.out ++ .ofList o⟩ := by
  have hlength : m.length - 1 + 1 = m.length := Nat.sub_add_cancel (List.length_pos_of_ne_nil hne)
  rw [Scan.past, hlength, ← List.prefix_iff_eq_take.mp hm, length_encode_ascii hlt]

theorem past_pair {a b : Char} (hm : c = a ∧ s.head? = some b) (hlt : ∀ d ∈ [a, b], d.toNat < 128) (r : Region)
    (o : List Char) : st.past (c :: s) ⟨o, r, 1⟩ = ⟨st.index + 2, r.mode, st.out ++ .ofList o⟩ := by
  obtain ⟨rfl, hs⟩ := hm
  obtain ⟨u, rfl⟩ := List.head?_eq_some_iff.mp hs
  exact past_mark (m := [c, b]) ⟨u, rfl⟩ (by simp) hlt r o

theorem past_single (hlt : c.toNat < 128) (r : Region) (o : List Char) :
    st.past (c :: s) ⟨o, r, 0⟩ = ⟨st.index + 1, r.mode, st.out ++ .ofList o⟩ :=
  past_mark (m := [c]) ⟨s, rfl⟩ (by simp) (by simpa using hlt) r o

end

theorem push_eq (text : String) (c : Char) : text.push c = text ++ .ofList [c] := by
  rw [← String.toList_inj]
  simp

/-- In the region a turn does to the bytes what reading does to the characters. -/
def ReadsBytes (r : Region) : Prop :=
  ∀ (i : Nat) (out : String) (c : Char) (s : List Char),
    Scan.read? ⟨i, r.mode, out⟩ c (encode (c :: s)) = some (Scan.past ⟨i, r.mode, out⟩ (c :: s) (r.read c s))

theorem readsBytes_line : ReadsBytes .line := by
  intro i out c s
  simp only [Scan.read?, Region.read, Region.mode]
  by_cases hc : c = '\n'
  · rw [if_pos hc, if_pos hc, past_one, push_eq]
    rfl
  · rw [if_neg hc, if_neg hc, past_one]
    simp [Region.mode]

theorem readsBytes_block : ReadsBytes .block := by
  intro i out c s
  simp only [Scan.read?, Region.read, Region.mode, startsWith_pair (a := '*') (b := '/') (m := "*/") rfl]
  by_cases hm : c = '*' ∧ s.head? = some '/'
  · rw [if_pos hm, if_pos hm, past_pair hm (forall_of_all (by decide))]
    simp [Region.mode]
  · rw [if_neg hm, if_neg hm, past_one]
    simp [Region.mode]

theorem readsBytes_literal : ReadsBytes .literal := by
  intro i out c s
  simp only [Scan.read?, Region.read, Region.mode, startsWith_pair (a := '\x27') (b := '\x27') (m := "\x27\x27") rfl]
  by_cases hc : c = '\x27'
  · by_cases hs : s.head? = some '\x27'
    · rw [if_pos ⟨hc, hs⟩, if_pos hc, if_pos hs, past_pair ⟨hc, hs⟩ (forall_of_all (by decide))]
      simp [Region.mode]
    · rw [if_neg fun h => hs h.2, if_pos hc, if_pos hc, if_neg hs, past_single (by rw [hc]; decide), push_eq]
      rfl
  · rw [if_neg fun h => hc h.1, if_neg hc, if_neg hc, past_one]
    simp [Region.mode]

theorem readsBytes_quoted : ReadsBytes .quoted := by
  intro i out c s
  simp only [Scan.read?, Region.read, Region.mode, push_eq,
    startsWith_pair (a := '\x22') (b := '\x22') (m := "\x22\x22") rfl]
  by_cases hc : c = '\x22'
  · by_cases hs : s.head? = some '\x22'
    · rw [if_pos ⟨hc, hs⟩, if_pos hc, if_pos hs, past_pair ⟨hc, hs⟩ (forall_of_all (by decide))]
      rfl
    · rw [if_neg fun h => hs h.2, if_pos hc, if_pos hc, if_neg hs, past_single (by rw [hc]; decide)]
      simp [Region.mode]
  · rw [if_neg fun h => hc h.1, if_neg hc, if_neg hc, past_one]
    rfl

theorem readsBytes_body {tag : List Char} (ht : IsTag tag) : ReadsBytes (.body tag) := by
  intro i out c s
  have hprefix : (encode tag).isPrefixOf (encode (c :: s)) = tag.isPrefixOf (c :: s) := by
    rw [Bool.eq_iff_iff, List.isPrefixOf_iff_prefix, List.isPrefixOf_iff_prefix, encode_prefix_iff]
  simp only [Scan.read?, Region.read, Region.mode, hprefix]
  by_cases hm : tag.isPrefixOf (c :: s) = true
  · rw [if_pos hm, if_pos hm, past_mark (List.isPrefixOf_iff_prefix.mp hm) ht.ne_nil ht.lt, push_eq,
      length_encode_ascii ht.lt]
    rfl
  · rw [if_neg hm, if_neg hm, past_one]
    simp [Region.mode]

theorem readsBytes_plain : ReadsBytes .plain := by
  intro i out c s
  simp only [Scan.read?, Region.read, Region.mode, startsWith_pair (a := '-') (b := '-') (m := "--") rfl,
    startsWith_pair (a := '/') (b := '*') (m := "/*") rfl, dollarTag_encode, Option.map_some, push_eq]
  by_cases hl : c = '-' ∧ s.head? = some '-'
  · rw [if_pos hl, if_pos hl, past_pair hl (forall_of_all (by decide))]
    simp [Region.mode]
  rw [if_neg hl, if_neg hl]
  by_cases hb : c = '/' ∧ s.head? = some '*'
  · rw [if_pos hb, if_pos hb, past_pair hb (forall_of_all (by decide))]
    simp [Region.mode]
  rw [if_neg hb, if_neg hb]
  by_cases hq : c = '\x27'
  · rw [if_pos hq, if_pos hq, past_single (by rw [hq]; decide)]
    simp [Region.mode]
  rw [if_neg hq, if_neg hq]
  by_cases hd : c = '\x22'
  · rw [if_pos hd, if_pos hd, past_single (by rw [hd]; decide)]
    simp [Region.mode]
  rw [if_neg hd, if_neg hd]
  cases ht : tagAt (c :: s) with
  | none =>
    simp only [Option.map_none, past_one]
    rfl
  | some tag =>
    obtain ⟨htag, hm⟩ := isTag_of_tagAt ht
    simp only [Option.map_some, past_mark hm htag.ne_nil htag.lt, length_encode_ascii htag.lt]
    rfl

theorem Region.Proper.readsBytes {r : Region} (h : r.Proper) : ReadsBytes r := by
  cases r with
  | plain => exact readsBytes_plain
  | line => exact readsBytes_line
  | block => exact readsBytes_block
  | literal => exact readsBytes_literal
  | quoted => exact readsBytes_quoted
  | body tag => exact readsBytes_body (h.resolve_left (by simp))

theorem skip_le {m : List Char} {c : Char} {s : List Char} (h : m <+: c :: s) : m.length - 1 ≤ s.length := by
  have hlength := h.length_le
  rw [List.length_cons] at hlength
  omega

/-- A reading reaches no further than the text. -/
theorem read_fits {r : Region} (hr : r.Proper) (c : Char) (s : List Char) :
    (r.read c s).skip ≤ s.length ∧ (r.read c s).region.Proper := by
  rcases hr with rfl | hr
  · by_cases ho : ∃ r : Region, r.Marked ∧ r.opener <+: c :: s
    · obtain ⟨r, hr, ho⟩ := ho
      rw [read_opener hr ho]
      exact ⟨skip_le ho, .inr hr⟩
    · rw [read_plain fun r hr h => ho ⟨r, hr, h⟩]
      exact ⟨Nat.zero_le _, .inl rfl⟩
  rcases hr.raw_or_quote with hraw | ⟨q, hq⟩
  · rw [hraw.read_eq]
    split
    · rename_i hm
      exact ⟨skip_le hm, .inl rfl⟩
    · exact ⟨Nat.zero_le _, .inr hr⟩
  · rw [read_quote hq]
    by_cases hc : c = q
    · by_cases hs : s.head? = some q
      · obtain ⟨u, rfl⟩ := List.head?_eq_some_iff.mp hs
        simp [hc, Region.Proper, hr]
      · simp [hc, hs, Region.Proper]
    · simp [hc, Region.Proper, hr]

/-! ## All turns -/

/-- The index is behind the characters `s` of the text, before the characters `t`, and what is left of the text so far
and what stripping leaves of `t` in the region is all that stripping leaves. -/
structure StandsAt (sql : List Char) (st : Scan) (r : Region) (s t : List Char) : Prop where
  text : s ++ t = sql
  index : st.index = (encode s).length
  mode : st.mode = r.mode
  proper : r.Proper
  out : st.out.toList ++ stripFrom r 0 t = strip sql

theorem standsAt_start (sql : List Char) : StandsAt sql .start .plain [] sql := ⟨rfl, rfl, rfl, .inl rfl, rfl⟩

theorem stripFrom_drop {r : Region} {k : Nat} {s : List Char} (h : k ≤ s.length) :
    stripFrom r k s = stripFrom r 0 (s.drop k) := by
  have hskip := stripFrom_skip r (s.take k) (s.drop k)
  rwa [List.length_take_of_le h, List.take_append_drop] at hskip

theorem scan_next {sql : Bytes} {st st' : Scan} (hlt : st.index < sql.length) (h : turn sql st = .next st') :
    scan sql st = scan sql st' := by
  rw [scan, if_pos hlt]
  split <;> rename_i hturn <;> rw [h] at hturn <;> cases hturn
  rfl

namespace StandsAt

variable {sql s t : List Char} {st : Scan} {r : Region}

theorem index_lt_iff (h : StandsAt sql st r s t) : st.index < (encode sql).length ↔ t ≠ [] := by
  rw [h.index, ← h.text, encode_append, List.length_append, Nat.lt_add_right_iff_pos, List.length_pos_iff, ne_eq,
    encode_eq_nil_iff]

theorem index_le (h : StandsAt sql st r s t) : st.index ≤ (encode sql).length := by
  rw [h.index, ← h.text, encode_append, List.length_append]
  exact Nat.le_add_right _ _

variable {c : Char}

theorem turn_eq (h : StandsAt sql st r s (c :: t)) :
    turn (encode sql) st = .next (st.past (c :: t) (r.read c t)) := by
  obtain ⟨i, m, out⟩ := st
  obtain rfl : m = r.mode := h.mode
  have hcut := sliceFrom?_encode s (c :: t)
  rw [h.text, ← h.index] at hcut
  rw [turn, hcut]
  simp only [encode_cons, firstChar?_append]
  rw [← encode_cons, h.proper.readsBytes]

theorem past (h : StandsAt sql st r s (c :: t)) :
    StandsAt sql (st.past (c :: t) (r.read c t)) (r.read c t).region
      (s ++ (c :: t).take ((r.read c t).skip + 1)) (t.drop (r.read c t).skip) where
  text := by rw [← h.text, List.take_succ_cons, List.append_assoc, List.cons_append, List.take_append_drop]
  index := by rw [Scan.past, h.index, encode_append, List.length_append]
  mode := rfl
  proper := (read_fits h.proper c t).2
  out := by
    rw [← h.out, stripFrom, stripFrom_drop (read_fits h.proper c t).1]
    simp [Scan.past]

theorem lt_past (c : Char) (t : List Char) (x : Reading) : st.index < (st.past (c :: t) x).index := by
  have := c.utf8Size_pos
  simp only [Scan.past, List.take_succ_cons, length_encode_cons]
  omega

/-- The loop ends, at the end of the text. -/
theorem scan_eq (h : StandsAt sql st r s t) : scan (encode sql) st = some (.ofList (strip sql)) := by
  -- the characters behind the index get fewer in each turn
  induction hn : t.length using Nat.strong_induction_on generalizing st r s t with
  | h n ih =>
    cases t with
    | nil =>
      rw [scan, if_neg fun hlt => h.index_lt_iff.mp hlt rfl, ← h.out, stripFrom, List.append_nil, String.ofList_toList]
    | cons c t =>
      have hlt : (t.drop (r.read c t).skip).length < n := by
        rw [← hn, List.length_cons, List.length_drop]
        omega
      rw [scan_next (h.index_lt_iff.mpr (List.cons_ne_nil c t)) h.turn_eq]
      exact ih _ hlt h.past rfl

end StandsAt

/-- The states at the top of the loop. -/
inductive Reaches (sql : Bytes) : Scan → Prop
  | start : Reaches sql .start
  | next {st st' : Scan} : Reaches sql st → st.index < sql.length → turn sql st = .next st' → Reaches sql st'

theorem Reaches.standsAt {sql : List Char} {st : Scan} (h : Reaches (encode sql) st) :
    ∃ r s t, StandsAt sql st r s t := by
  induction h with
  | start => exact ⟨_, _, _, standsAt_start sql⟩
  | next _ hlt hturn ih =>
    obtain ⟨r, s, t, hst⟩ := ih
    obtain ⟨c, t, rfl⟩ := List.exists_cons_of_ne_nil (hst.index_lt_iff.mp hlt)
    rw [hst.turn_eq] at hturn
    obtain rfl := Turn.next.inj hturn
    exact ⟨_, _, _, hst.past⟩

/-- **A text is stripped by bytes as it is by characters.** In every turn the index is behind a whole character, and it
grows. -/
theorem normalizeBytes_refines (sql : String) :
    (∀ st, Reaches (bytes sql) st →
      (∃ r s t, StandsAt sql.toList st r s t) ∧ st.index ≤ (bytes sql).length ∧
        (st.index < (bytes sql).length → ∃ st', turn (bytes sql) st = .next st' ∧ st.index < st'.index)) ∧
      normalizeBytes sql = some (normalize sql) := by
  rw [normalizeBytes, bytes_eq]
  constructor
  · intro st hst
    obtain ⟨r, s, t, h⟩ := hst.standsAt
    refine ⟨⟨r, s, t, h⟩, h.index_le, fun hlt => ?_⟩
    obtain ⟨c, t, rfl⟩ := List.exists_cons_of_ne_nil (h.index_lt_iff.mp hlt)
    exact ⟨_, h.turn_eq, StandsAt.lt_past c t _⟩
  · rw [(standsAt_start sql.toList).scan_eq, Option.map_some, String.toList_ofList]
    rfl

-- A tag has no other characters than ASCII ones.
example : normalizeBytes "\u00c9'\u00fc''\u00df'$\u00e9$" = some "\u00e9 $\u00e9$" := by decide +kernel

/-- Characters of two bytes beside a quote and a dollar sign, the index between them. -/
theorem normalizeBytes_refines_umlaut :
    let sql := "\u00fc'\u00e9''--$\u00df$"
    let st : Scan := ⟨2, .plain, "\u00fc"⟩
    Reaches (bytes sql) st ∧ (∃ r s t, StandsAt sql.toList st r s t) ∧ st.index < (bytes sql).length ∧
      ∃ st', turn (bytes sql) st = .next st' ∧ st.index < st'.index := by
  intro sql st
  have hst : Reaches (bytes sql) st := .next .start (by decide +kernel) (by decide +kernel)
  obtain ⟨hstands, -, hturn⟩ := (normalizeBytes_refines sql).1 st hst
  have hlt : st.index < (bytes sql).length := by decide +kernel
  exact ⟨hst, hstands, hlt, hturn hlt⟩

end MigrationLint.Sql
