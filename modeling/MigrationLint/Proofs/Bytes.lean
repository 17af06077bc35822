import MigrationLint.Proofs.PlainLines
import MigrationLint.Text.Bytes

/-!
# Characters among bytes

No code of a character starts another one, so texts start with the same bytes exactly if they start with the same
characters (`encode_prefix_iff`). A text can be cut between its characters (`isBoundary_encode`).
-/

namespace MigrationLint.Text

open Environment (encode encode_append toUTF8_data)

theorem bytes_eq (text : String) : bytes text = encode text.toList := toUTF8_data text

theorem encode_cons (c : Char) (s : List Char) : encode (c :: s) = String.utf8EncodeChar c ++ encode s := rfl

theorem length_encode_cons (c : Char) (s : List Char) :
    (encode (c :: s)).length = c.utf8Size + (encode s).length := by
  rw [encode_cons, List.length_append, String.length_utf8EncodeChar]

theorem encode_eq_nil_iff {s : List Char} : encode s = [] ↔ s = [] := by
  cases s <;> simp [encode]

theorem utf8EncodeChar_ofNat : ∀ n < 128, String.utf8EncodeChar (.ofNat n) = [.ofNat n] := by decide +kernel

theorem utf8EncodeChar_ascii {c : Char} (h : c.toNat < 128) : String.utf8EncodeChar c = [.ofNat c.toNat] := by
  have hcode := utf8EncodeChar_ofNat c.toNat h
  rwa [Char.ofNat_toNat] at hcode

theorem length_encode_ascii {s : List Char} (h : ∀ c ∈ s, c.toNat < 128) : (encode s).length = s.length := by
  induction s with
  | nil => rfl
  | cons c s ih =>
    rw [List.forall_mem_cons] at h
    rw [encode_cons, utf8EncodeChar_ascii h.1, List.singleton_append, List.length_cons, List.length_cons, ih h.2]

theorem firstChar?_append (c : Char) (x : Bytes) : firstChar? (String.utf8EncodeChar c ++ x) = some c := by
  have hbytes : (⟨(String.utf8EncodeChar c ++ x).toArray⟩ : ByteArray) = [c].utf8Encode ++ ⟨x.toArray⟩ := by
    apply ByteArray.ext
    simp [List.utf8Encode, List.data_toByteArray]
  rw [firstChar?, hbytes, List.utf8DecodeChar?_utf8Encode_singleton_append]

theorem encode_prefix_iff {m s : List Char} : encode m <+: encode s ↔ m <+: s := by
  induction m generalizing s with
  | nil => simp [encode]
  | cons c m ih =>
    cases s with
    | nil => simp [encode]
    | cons d s =>
      rw [encode_cons, encode_cons, List.cons_prefix_cons, ← ih]
      constructor
      · intro h
        obtain ⟨x, hx⟩ := h
        have hfirst := congrArg firstChar? hx
        rw [List.append_assoc, firstChar?_append, firstChar?_append] at hfirst
        obtain rfl := Option.some.inj hfirst
        rw [List.append_assoc] at hx
        exact ⟨rfl, x, List.append_cancel_left hx⟩
      · intro h
        obtain ⟨rfl, h⟩ := h
        exact (List.prefix_append_right_inj _).mpr h

theorem startsWith_encode (s : List Char) (mark : String) :
    startsWith (encode s) mark = mark.toList.isPrefixOf s := by
  rw [startsWith, bytes_eq, Bool.eq_iff_iff, List.isPrefixOf_iff_prefix, List.isPrefixOf_iff_prefix, encode_prefix_iff]

/-! ## Cuts -/

theorem first_of_bits : ∀ n < 256, (UInt8.ofNat n).IsUTF8FirstByte →
    (UInt8.ofNat n < 0x80 || 0xC0 ≤ UInt8.ofNat n) = true := by
  unfold UInt8.IsUTF8FirstByte
  decide +kernel

theorem isBoundary_encode (s t : List Char) : isBoundary (encode (s ++ t)) (encode s).length = true := by
  rw [isBoundary, encode_append]
  cases t with
  | nil => simp [encode]
  | cons c t =>
    obtain ⟨b, x, hb⟩ := List.exists_cons_of_ne_nil (String.utf8EncodeChar_ne_nil (c := c))
    have hfirst : b.IsUTF8FirstByte := by
      have := (@UInt8.isUTF8FirstByte_getElem_utf8EncodeChar c 0 (by simp [hb])).mpr rfl
      simpa [hb] using this
    have hbits := first_of_bits b.toNat b.toNat_lt (by rwa [UInt8.ofNat_toNat])
    rw [UInt8.ofNat_toNat] at hbits
    simp [encode_cons, hb, hbits]

theorem sliceFrom?_encode (s t : List Char) :
    sliceFrom? (encode (s ++ t)) (encode s).length = some (encode t) := by
  rw [sliceFrom?, if_pos (isBoundary_encode s t), encode_append, List.drop_left]

theorem sliceTo?_encode (s t : List Char) : sliceTo? (encode (s ++ t)) (encode s).length = some (encode s) := by
  rw [sliceTo?, if_pos (isBoundary_encode s t), encode_append, List.take_left]

end MigrationLint.Text
