import Lexing.Text.Utf8

/-!
# Decoding text

A text is decoded from exactly the bytes that encode it (`decode_eq_ok_iff`), and bytes that encode
none are told to be well-formed up to a place before their end (`decode_error`). Bytes of ASCII are
the text of the characters with those numbers (`decode_ascii`).
-/

set_option autoImplicit false

namespace Lexing.Utf8

theorem decode_eq_ok_iff {bytes : Array UInt8} {text : String} :
    decode bytes = .ok text ↔ text.toUTF8.data = bytes := by
  unfold decode String.fromUTF8?
  constructor
  · intro decoded
    split at decoded
    next found =>
      by_cases valid : (ByteArray.mk bytes).IsValidUTF8
      · rw [dif_pos valid] at found
        cases found
        cases decoded
        rfl
      · rw [dif_neg valid] at found
        cases found
    next => cases decoded
  · intro encoded
    have same : text.toByteArray = ⟨bytes⟩ := ByteArray.ext encoded
    have valid : (ByteArray.mk bytes).IsValidUTF8 := same ▸ text.isValidUTF8
    have decoded : String.fromUTF8 ⟨bytes⟩ valid = text := String.toByteArray_inj.1 same.symm
    rw [dif_pos valid, decoded]

/-- Bytes decode exactly if they are well-formed. -/
theorem decode_isOk_iff (bytes : Array UInt8) :
    (∃ text, decode bytes = .ok text) ↔ (ByteArray.mk bytes).IsValidUTF8 := by
  constructor
  · rintro ⟨text, decoded⟩
    have same : text.toByteArray = ⟨bytes⟩ := ByteArray.ext (decode_eq_ok_iff.1 decoded)
    exact same ▸ text.isValidUTF8
  · intro valid
    exact ⟨String.fromUTF8 ⟨bytes⟩ valid, decode_eq_ok_iff.2 rfl⟩

/-- A character that is decoded is well-formed. -/
theorem extract_char_valid {bytes : ByteArray} {start : Nat}
    (found : (bytes.utf8DecodeChar? start).isSome) :
    (bytes.extract start
      (start + ((bytes.utf8DecodeChar? start).get found).utf8Size)).IsValidUTF8 := by
  have encoded : (String.utf8EncodeChar ((bytes.utf8DecodeChar? start).get found)).toByteArray =
      bytes.extract start (start + ((bytes.utf8DecodeChar? start).get found).utf8Size) :=
    ByteArray.utf8EncodeChar_utf8DecodeChar
  rw [← encoded, ← List.utf8Encode_singleton]
  exact ByteArray.isValidUTF8_utf8Encode

/-- A run of whole characters is well-formed and within the bytes. -/
theorem wellFormedEnd_valid (bytes : ByteArray) (start : Nat) (within : start ≤ bytes.size) :
    start ≤ wellFormedEnd bytes start ∧ wellFormedEnd bytes start ≤ bytes.size ∧
      (bytes.extract start (wellFormedEnd bytes start)).IsValidUTF8 := by
  fun_induction wellFormedEnd bytes start with
  | case1 start found ih =>
    have upto : start + ((bytes.utf8DecodeChar? start).get found).utf8Size ≤ bytes.size :=
      ByteArray.add_utf8Size_utf8DecodeChar_le_size
    obtain ⟨further, inside, others⟩ := ih upto
    refine ⟨by omega, inside, ?_⟩
    have joined := (extract_char_valid found).append others
    rw [ByteArray.extract_append_extract] at joined
    rwa [Nat.min_eq_left (by omega), Nat.max_eq_right further] at joined
  | case2 start none =>
    refine ⟨Nat.le_refl start, within, ?_⟩
    rw [ByteArray.extract_eq_empty_iff.2 (Nat.min_le_left _ _)]
    exact ByteArray.isValidUTF8_empty

/-- Bytes that are not well-formed stop being so before their end, and are up to there. -/
theorem decode_error {bytes : Array UInt8} {malformation : Malformation}
    (failed : decode bytes = .error malformation) :
    malformation.validUpTo < bytes.size ∧
      ∃ text, decode (bytes.extract 0 malformation.validUpTo) = .ok text := by
  obtain ⟨-, inside, valid⟩ := wellFormedEnd_valid ⟨bytes⟩ 0 (Nat.zero_le _)
  have told : malformation.validUpTo = wellFormedEnd ⟨bytes⟩ 0 := by
    unfold decode at failed
    split at failed
    · cases failed
    · cases failed
      rfl
  have same : (ByteArray.mk bytes).extract 0 malformation.validUpTo =
      ⟨bytes.extract 0 malformation.validUpTo⟩ := ByteArray.ext ByteArray.data_extract
  rw [← told] at inside valid
  rw [same] at valid
  obtain ⟨text, decoded⟩ := (decode_isOk_iff _).2 valid
  refine ⟨Nat.lt_of_le_of_ne inside fun whole => ?_, text, decoded⟩
  have size : malformation.validUpTo = bytes.size := whole
  rw [size, Array.extract_size, failed] at decoded
  cases decoded

/-- The character of an ASCII byte is encoded as that byte. -/
theorem utf8EncodeChar_ascii {byte : UInt8} (ascii : byte < 0x80) :
    String.utf8EncodeChar (Char.ofNat byte.toNat) = [byte] := by
  have small : byte.toNat < 128 := UInt8.lt_iff_toNat_lt.1 ascii
  have value : (Char.ofNat byte.toNat).val.toNat = byte.toNat := by
    rw [Char.ofNat, dif_pos (Or.inl (by omega))]
    rfl
  simp [String.utf8EncodeChar, value, show byte.toNat ≤ 127 by omega]

theorem decode_ascii {bytes : List UInt8} (ascii : ∀ byte ∈ bytes, byte < 0x80) :
    decode bytes.toArray = .ok (String.ofList (bytes.map fun byte => Char.ofNat byte.toNat)) := by
  rw [decode_eq_ok_iff, String.toUTF8_eq_toByteArray, String.toByteArray_ofList, List.utf8Encode]
  have encoded : (bytes.map fun byte => Char.ofNat byte.toNat).flatMap String.utf8EncodeChar =
      bytes := by
    induction bytes with
    | nil => rfl
    | cons byte bytes ih =>
      have first := utf8EncodeChar_ascii (ascii byte List.mem_cons_self)
      have rest := ih fun byte member => ascii byte (List.mem_cons_of_mem _ member)
      rw [List.map_cons, List.flatMap_cons, first, rest, List.singleton_append]
  rw [encoded]
  simp

end Lexing.Utf8
