import MigrationLint.Environment.File
import MigrationLint.Proofs.Trimming

/-!
# Environment files of plain lines

A line `NAME=value` of plain characters is taken as it stands (`parseLine_plain`). So a file of such lines defines its
variables one after the other, and of two lines of one name the first counts (`get?_load`).
-/

namespace MigrationLint.Environment

open Text

/-! ## Plain lines -/

structure PlainName (name : List Char) : Prop where
  head : ∃ c ∈ name.head?, (c.isAlpha || c == '_') = true
  chars : ∀ c ∈ name, isKeyChar c = true

/-- A character that stands for itself in a value. No variable can hold a null character. -/
def IsPlain (c : Char) : Prop := isBlank c = false ∧ c ∉ ['\x22', '\x27', '$', '#', '\\', '\x00']

instance (c : Char) : Decidable (IsPlain c) := inferInstanceAs (Decidable (_ ∧ _))

structure PlainLine (line : String × String) : Prop where
  name : PlainName line.1.toList
  value : ∀ c ∈ line.2.toList, IsPlain c

instance (line : String × String) : Decidable (PlainLine line) :=
  decidable_of_iff ((line.1.toList.head?.any fun c => c.isAlpha || c == '_') = true ∧
      line.1.toList.all isKeyChar = true ∧ line.2.toList.all (IsPlain ·) = true)
    ⟨fun ⟨h, hn, hv⟩ => ⟨⟨(Option.any_eq_true _ _).mp h, List.all_eq_true.mp hn⟩, forall_of_all hv⟩,
      fun h => ⟨(Option.any_eq_true _ _).mpr h.name.head, List.all_eq_true.mpr h.name.chars, by simpa using h.value⟩⟩

def lineText (line : String × String) : List Char := line.1.toList ++ '=' :: line.2.toList

/-- The texts of plain lines: behind each of them but the last there is a line break, and one may be behind that. -/
inductive Writes : Environment → List Char → Prop
  | nil : Writes [] []
  | last {line : String × String} : PlainLine line → Writes [line] (lineText line)
  | cons {line : String × String} {lines : Environment} {newline text : List Char} :
      PlainLine line → newline = ['\n'] ∨ newline = ['\r', '\n'] → Writes lines text →
        Writes (line :: lines) (lineText line ++ (newline ++ text))

/-- A character that a name can start with is no other. -/
theorem ne_of_head {c d : Char} (hc : (c.isAlpha || c == '_') = true) (hd : (d.isAlpha || d == '_') = false) :
    c ≠ d := by
  rintro rfl
  exact absurd (hd.symm.trans hc) (by decide)

/-- A character that leaves nothing open in a line. -/
def Stays (c : Char) : Prop := Pending.nothing.next c = .nothing

theorem stays_of_ne {c : Char} (hblank : isBlank c = false ∨ c = '\n' ∨ c = '\r') (hslash : c ≠ '\\')
    (hweak : c ≠ '\x22') (hstrong : c ≠ '\x27') : Stays c := by
  have hnext : ¬ (isBlank c = true ∧ c ≠ '\n' ∧ c ≠ '\r') := by
    rintro ⟨h, hn, hr⟩
    rcases hblank with hb | hb | hb
    · exact absurd (h.symm.trans hb) (by decide)
    · exact hn hb
    · exact hr hb
  rw [Stays, Pending.next, if_neg hnext, Pending.open, if_neg hslash, if_neg hweak, if_neg hstrong]

theorem isBlank_of_isKeyChar {c : Char} (h : isKeyChar c = true) : isBlank c = false := by
  rw [isKeyChar, Bool.or_eq_true] at h
  rcases h with h | h
  · exact isBlank_of_isWordChar (Sql.isWordChar_of_isTagChar h)
  · rw [beq_iff_eq.mp h]
    decide

theorem stays_of_isKeyChar {c : Char} (h : isKeyChar c = true) : Stays c := by
  refine stays_of_ne (.inl (isBlank_of_isKeyChar h)) ?_ ?_ ?_ <;>
    · rintro rfl
      exact absurd h (by decide)

theorem IsPlain.stays {c : Char} (h : IsPlain c) : Stays c := by
  obtain ⟨hblank, hother⟩ := h
  simp only [List.mem_cons, not_or] at hother
  exact stays_of_ne (.inl hblank) hother.2.2.2.2.1 hother.1 hother.2.1

section
variable {line : String × String} (h : PlainLine line)
include h

theorem PlainLine.forall_mem {p : Char → Prop} (hname : ∀ c, isKeyChar c = true → p c) (hequals : p '=')
    (hvalue : ∀ c, IsPlain c → p c) : ∀ c ∈ lineText line, p c := by
  intro c hc
  rcases List.mem_append.mp hc with hc | hc
  · exact hname c (h.name.chars c hc)
  · rcases List.mem_cons.mp hc with rfl | hc
    · exact hequals
    · exact hvalue c (h.value c hc)

theorem PlainLine.not_blank : ∀ c ∈ lineText line, isBlank c = false :=
  h.forall_mem (fun _ => isBlank_of_isKeyChar) (by decide) fun _ hc => hc.1

theorem PlainLine.stays : ∀ c ∈ lineText line, Stays c :=
  h.forall_mem (fun _ => stays_of_isKeyChar) (by unfold Stays; decide) fun _ hc => hc.stays

theorem PlainLine.newline_notMem : '\n' ∉ lineText line := fun hmem =>
  absurd (h.not_blank _ hmem) (by decide)

theorem PlainLine.exists_head : ∃ c s, lineText line = c :: s ∧ (c.isAlpha || c == '_') = true := by
  obtain ⟨c, hc, halpha⟩ := h.name.head
  obtain ⟨s, hs⟩ := List.head?_eq_some_iff.mp hc
  exact ⟨c, s ++ '=' :: line.2.toList, by rw [lineText, hs]; rfl, halpha⟩

end

/-! ## Assignments -/

theorem readValue_plain (env : Environment) {value : List Char} (h : ∀ c ∈ value, IsPlain c) (out : List Char) :
    readValue env ⟨.bare, .text, [], out⟩ value = some (out.reverse ++ value) := by
  induction value generalizing out with
  | nil => simp [readValue, Reading.finish?]
  | cons c value ih =>
    rw [List.forall_mem_cons] at h
    obtain ⟨hblank, hother⟩ := h.1
    have hspace : c ≠ ' ' ∧ c ≠ '\t' := by
      constructor <;>
        · rintro rfl
          exact absurd hblank (by decide)
    simp only [List.mem_cons, List.not_mem_nil, or_false, not_or] at hother
    have hread : Reading.read? env ⟨.bare, .text, [], out⟩ c = some ⟨.bare, .text, [], c :: out⟩ := by
      simp [Reading.read?, Reading.readText, Reading.push, hother, hspace]
    rw [readValue, if_neg (by simp), hread, Option.bind_some, ih h.2]
    simp

theorem isNothing_cons {c : Char} (h : c ≠ '#') (s : List Char) : isNothing (c :: s) = false := by
  simp [isNothing, h]

section
variable {line : String × String} (h : PlainLine line)
include h

theorem trim_lineText : trim (lineText line) = lineText line := by
  have hends : ∃ front back, IsBlankText front ∧ IsBlankText back ∧ lineText line = front ++ lineText line ++ back :=
    ⟨[], [], by simp [IsBlankText], by simp [IsBlankText], by simp⟩
  have htrims : Trims (lineText line) (lineText line) :=
    ⟨hends, fun c hc => h.not_blank c (List.mem_of_mem_head? hc), fun c hc => h.not_blank c (List.mem_of_getLast? hc)⟩
  exact htrims.eq_trim.symm

theorem keyAndText?_lineText : keyAndText? (lineText line) = some (line.1.toList, line.2.toList) := by
  obtain ⟨c, hc, halpha⟩ := h.name.head
  have hhead : ((lineText line).head?.any fun c => c.isAlpha || c == '_') = true := by
    obtain ⟨s, hs⟩ := List.head?_eq_some_iff.mp hc
    rw [lineText, hs]
    exact halpha
  have hequals : isKeyChar '=' = false := by decide
  have hname : (lineText line).takeWhile isKeyChar = line.1.toList := by
    rw [lineText, List.takeWhile_append_of_pos h.name.chars, List.takeWhile_cons_of_neg (by simp [hequals]),
      List.append_nil]
  have hrest : (lineText line).dropWhile isKeyChar = '=' :: line.2.toList := by
    rw [lineText, List.dropWhile_append_of_pos h.name.chars, List.dropWhile_cons_of_neg (by simp [hequals])]
  have hvalue : trimStart line.2.toList = line.2.toList :=
    dropWhile_of_head fun c hc => (h.value c (List.mem_of_mem_head? hc)).1
  have hstart : trimStart ('=' :: line.2.toList) = '=' :: line.2.toList := List.dropWhile_cons_of_neg (by decide)
  rw [keyAndText?, key?, if_pos hhead, hname, hrest, hstart, Option.bind_some]
  simp only [equals?, hvalue]

/-- A plain line assigns its value to its name. -/
theorem parseLine_plain (env : Environment) : parseLine env (lineText line) = .assign line.1 line.2 := by
  have hline : isNothing (lineText line) = false := by
    obtain ⟨c, s, hs, halpha⟩ := h.exists_head
    rw [hs, isNothing_cons (ne_of_head halpha (by decide))]
  rw [parseLine, trim_lineText h]
  simp only [hline, Bool.false_eq_true, if_false, keyAndText?_lineText h, String.ofList_toList]
  by_cases hvalue : line.2.toList = []
  · have hempty : line.2 = "" := String.toList_inj.mp hvalue
    rw [hvalue, hempty]
    rfl
  · have hsome : isNothing line.2.toList = false := by
      obtain ⟨c, s, hs⟩ := List.exists_cons_of_ne_nil hvalue
      have hcomment : c ≠ '#' := by
        rintro rfl
        exact (h.value '#' (by simp [hs])).2 (by simp)
      rw [hs, isNothing_cons hcomment]
    have hread := readValue_plain env h.value []
    rw [hsome, if_neg Bool.false_ne_true, Reading.start, hread]
    simp

end

/-! ## Lines of a file -/

/-- The bytes of a text. -/
def encode (s : List Char) : List UInt8 := s.flatMap String.utf8EncodeChar

theorem encode_append (s t : List Char) : encode (s ++ t) = encode s ++ encode t := List.flatMap_append

theorem toUTF8_data (text : String) : text.toUTF8.data.toList = encode text.toList := by
  rw [String.toUTF8_eq_toByteArray, ← String.utf8Encode_toList, List.utf8Encode, List.toList_data_toByteArray]
  rfl

theorem decodeLine_encode (s : List Char) : decodeLine (encode s) = some s := by
  have hbytes : (⟨(encode s).toArray⟩ : ByteArray) = (String.ofList s).toUTF8 := by
    rw [String.toUTF8_eq_toByteArray, String.toByteArray_ofList, List.utf8Encode]
    exact ByteArray.ext (List.data_toByteArray).symm
  have hread : String.fromUTF8? (String.ofList s).toUTF8 = some (String.ofList s) := by
    rw [String.fromUTF8?, dif_pos (show (String.ofList s).toUTF8.IsValidUTF8 from (String.ofList s).isValidUTF8)]
    rfl
  rw [decodeLine, hbytes, hread, Option.map_some, String.toList_ofList]

/-- Only a line feed has its byte. -/
theorem eq_newline_of_mem {c : Char} (h : 10 ∈ String.utf8EncodeChar c) : c = '\n' := by
  have hbyte {n : Nat} (e : 10 = UInt8.ofNat n) : n % 256 = 10 := by simpa using (congrArg UInt8.toNat e).symm
  unfold String.utf8EncodeChar at h
  dsimp only at h
  split at h
  · have hvalue := hbyte (List.mem_singleton.mp h)
    refine Char.toNat_inj.mp (?_ : c.val.toNat = 10)
    omega
  -- every byte of a longer code is above 127
  · exfalso
    split at h
    · simp only [List.mem_cons, List.not_mem_nil, or_false] at h
      rcases h with h | h <;>
        · have := hbyte h
          omega
    · split at h
      · simp only [List.mem_cons, List.not_mem_nil, or_false] at h
        rcases h with h | h | h <;>
          · have := hbyte h
            omega
      · simp only [List.mem_cons, List.not_mem_nil, or_false] at h
        rcases h with h | h | h | h <;>
          · have := hbyte h
            omega

theorem newline_notMem {s : List Char} (h : '\n' ∉ s) : 10 ∉ encode s := by
  intro hmem
  obtain ⟨c, hc, hbyte⟩ := List.mem_flatMap.mp hmem
  exact h (eq_newline_of_mem hbyte ▸ hc)

theorem byteLines_last {bs : List UInt8} (hne : bs ≠ []) (h : 10 ∉ bs) : byteLines bs = [bs] := by
  induction bs with
  | nil => exact absurd rfl hne
  | cons b bs ih =>
    rw [List.mem_cons, not_or] at h
    rw [byteLines, if_neg (Ne.symm h.1)]
    by_cases hbs : bs = []
    · rw [hbs]
      rfl
    · rw [ih hbs h.2]

theorem byteLines_append {bs : List UInt8} (h : 10 ∉ bs) (rest : List UInt8) :
    byteLines (bs ++ 10 :: rest) = (bs ++ [10]) :: byteLines rest := by
  induction bs with
  | nil => rfl
  | cons b bs ih =>
    rw [List.mem_cons, not_or] at h
    rw [List.cons_append, byteLines, if_neg (Ne.symm h.1), ih h.2]
    rfl

theorem scanLine_stays {s : List Char} (h : ∀ c ∈ s, Stays c) : scanLine .nothing s = (.nothing, s) := by
  induction s with
  | nil => rfl
  | cons c s ih =>
    rw [List.forall_mem_cons] at h
    have hnext : Pending.nothing.next c = .nothing := h.1
    rw [scanLine, hnext, ih h.2]
    rfl

theorem chomp_append {s newline : List Char} (hs : ∀ c ∈ s, isBlank c = false)
    (hnewline : newline = [] ∨ newline = ['\n'] ∨ newline = ['\r', '\n']) : chomp (s ++ newline) = s := by
  have hlast {c : Char} {r : List Char} (hc : isBlank c = true) : s.reverse ≠ c :: r := fun e => by
    have hmem : c ∈ s := List.mem_reverse.mp (by simp [e])
    exact absurd (hc.symm.trans (hs c hmem)) (by decide)
  rcases hnewline with rfl | rfl | rfl
  · rw [List.append_nil]
    unfold chomp
    split
    · rename_i e
      exact absurd e (hlast (by decide))
    · rename_i e
      exact absurd e (hlast (by decide))
    · rfl
  · unfold chomp
    rw [List.reverse_append, List.reverse_singleton, List.singleton_append]
    split
    · rename_i e
      exact absurd (List.cons.inj e).2 (hlast (by decide))
    · rename_i e
      rw [← (List.cons.inj e).2, List.reverse_reverse]
    · rename_i e
      exact absurd rfl (e _)
  · simp [chomp]

section
variable {line : String × String} (h : PlainLine line) {newline : List Char}
include h

/-- A plain line is a line by itself, and its line break is cut. -/
theorem joinLines_plain (hnewline : newline = [] ∨ newline = ['\n'] ∨ newline = ['\r', '\n'])
    (ls : List (Option (List Char))) :
    joinLines [] .nothing (some (lineText line ++ newline) :: ls) = lineText line :: joinLines [] .nothing ls := by
  obtain ⟨c, s, hs, halpha⟩ := h.exists_head
  have hstart : (trimStart (lineText line ++ newline)).head? ≠ some '#' := by
    have hblank := h.not_blank c (by simp [hs])
    rw [hs, List.cons_append, trimStart, List.dropWhile_cons_of_neg (by simp [hblank])]
    exact fun e => ne_of_head halpha (by decide) (Option.some.inj e)
  have hscan : scanLine .nothing (lineText line ++ newline) = (.nothing, lineText line ++ newline) := by
    refine scanLine_stays fun c hc => ?_
    rcases List.mem_append.mp hc with hc | hc
    · exact h.stays c hc
    · unfold Stays
      rcases hnewline with rfl | rfl | rfl
      · cases hc
      · rw [List.mem_singleton.mp hc]
        decide
      · rcases List.mem_cons.mp hc with rfl | hc
        · decide
        · rw [List.mem_singleton.mp hc]
          decide
  rw [joinLines]
  simp only [List.nil_append, hscan, if_neg hstart, chomp_append h.not_blank hnewline]

end

theorem dropMark_of_head {bs : List UInt8} (h : bs.head? ≠ some 0xEF) : dropMark bs = bs := by
  unfold dropMark
  split
  · exact absurd rfl h
  · rfl

theorem PlainLine.head?_encode {line : String × String} (h : PlainLine line) (s : List Char) :
    (encode (lineText line ++ s)).head? ≠ some 0xEF := by
  obtain ⟨c, t, ht, halpha⟩ := h.exists_head
  have hsmall : c.val.toNat ≤ 127 := by
    have hword : c.isAlphanum = true ∨ c = '_' := by
      rw [Bool.or_eq_true, beq_iff_eq] at halpha
      exact halpha.imp_left fun h => by rw [Char.isAlphanum, h, Bool.true_or]
    rcases hword with hc | rfl
    · exact (bounds_of_isAlphanum hc).2.trans (by decide)
    · decide
  have hbyte : String.utf8EncodeChar c = [UInt8.ofNat c.val.toNat] := if_pos hsmall
  rw [ht, encode, List.cons_append, List.flatMap_cons, hbyte]
  intro e
  have hmod : c.val.toNat % 256 = 239 := by simpa using congrArg UInt8.toNat (Option.some.inj e)
  omega

theorem joinLines_writes {lines : Environment} {text : List Char} (h : Writes lines text) :
    joinLines [] .nothing ((byteLines (encode text)).map decodeLine) = lines.map lineText := by
  induction h with
  | nil => rfl
  | @last line hline =>
    have hne : encode (lineText line) ≠ [] := by
      obtain ⟨c, s, hs, -⟩ := hline.exists_head
      simp [encode, hs]
    have hplain := joinLines_plain hline (.inl rfl) []
    rw [List.append_nil] at hplain
    rw [byteLines_last hne (newline_notMem hline.newline_notMem), List.map_singleton, decodeLine_encode, hplain]
    rfl
  | @cons line lines newline text hline hnewline _ ih =>
    obtain ⟨front, hfront, hbreak⟩ : ∃ front, '\n' ∉ front ∧ newline = front ++ ['\n'] := by
      rcases hnewline with rfl | rfl
      · exact ⟨[], by simp, rfl⟩
      · exact ⟨['\r'], by simp, rfl⟩
    have hbody : 10 ∉ encode (lineText line ++ front) :=
      newline_notMem fun hmem => (List.mem_append.mp hmem).elim hline.newline_notMem hfront
    have hbyte : encode ['\n'] = [10] := by decide
    have htext : encode (lineText line ++ (newline ++ text)) =
        encode (lineText line ++ front) ++ 10 :: encode text := by
      rw [hbreak, ← List.append_assoc, ← List.append_assoc, encode_append, encode_append _ ['\n'], hbyte,
        List.append_assoc]
      rfl
    have hfirst : encode (lineText line ++ front) ++ [10] = encode (lineText line ++ newline) := by
      rw [hbreak, ← List.append_assoc, encode_append _ ['\n'], hbyte]
    rw [htext, byteLines_append hbody, hfirst, List.map_cons, decodeLine_encode,
      joinLines_plain hline (.inr hnewline), ih]
    rfl

/-- The lines of a file that is written plainly. -/
theorem fileLines_writes {lines : Environment} {text : String} (h : Writes lines text.toList) :
    fileLines text.toUTF8 = lines.map lineText := by
  have hmark : dropMark (encode text.toList) = encode text.toList := by
    generalize text.toList = s at h
    cases h with
    | nil => rfl
    | last hline =>
      have hhead := hline.head?_encode []
      rw [List.append_nil] at hhead
      exact dropMark_of_head hhead
    | cons hline _ _ => exact dropMark_of_head (hline.head?_encode _)
  rw [fileLines, toUTF8_data, hmark, joinLines_writes h]

/-! ## Loading -/

theorem get?_define (env : Environment) (name value x : String) :
    (env.define name value).get? x = (env.get? x).or (if x = name then some value else none) := by
  unfold define get?
  split
  · rename_i h
    by_cases hx : x = name
    · subst hx
      obtain ⟨v, hv⟩ := Option.isSome_iff_exists.mp h
      rw [hv]
      rfl
    · rw [if_neg hx, Option.or_none]
  · rw [List.lookup_append]
    congr 1
    rw [List.lookup_cons, List.lookup_nil]
    split <;> simp_all

theorem get?_loadLines {lines : Environment} (h : ∀ line ∈ lines, PlainLine line) (env : Environment) (x : String) :
    (loadLines env (lines.map lineText)).get? x = (env.get? x).or (lines.get? x) := by
  induction lines generalizing env with
  | nil => simp [loadLines, get?]
  | cons line lines ih =>
    rw [List.forall_mem_cons] at h
    rw [List.map_cons, loadLines, parseLine_plain h.1]
    simp only
    rw [ih h.2, get?_define, Option.or_assoc]
    congr 1
    unfold get?
    rw [List.lookup_cons]
    by_cases hx : x = line.1
    · simp [hx]
    · simp [hx, beq_false_of_ne hx]

theorem Writes.plain {lines : Environment} {text : List Char} (h : Writes lines text) :
    ∀ line ∈ lines, PlainLine line := by
  induction h with
  | nil => simp
  | last hline => simpa using hline
  | cons hline _ _ ih => exact List.forall_mem_cons.mpr ⟨hline, ih⟩

/-- **Plain environment files.** A variable has its value from the environment, if it is set there, else from the first
line of its name. -/
theorem get?_load {lines : Environment} {text : String} (h : Writes lines text.toList) (env : Environment)
    (x : String) : (env.load text.toUTF8).get? x = (env.get? x).or (lines.get? x) := by
  rw [load, fileLines_writes h, get?_loadLines h.plain]

end MigrationLint.Environment
