import MarkupTemplates.Proofs.Charset.Decoding

namespace MarkupTemplates

namespace Charset

theorem utf8Encode_eq (t : Text) : t.utf8Encode = (utf8.encode t).toByteArray := rfl

theorem decode_utf8_encode (t : Text) : utf8.decode (utf8.encode t) = t := by
  refine decodesTo_iff.mp ?_
  induction t with
  | nil => exact .nil
  | cons c t ih => exact .char ih

/-- Characters that the charset has no bytes for come back as question marks. -/
theorem decode_encode (charset : Charset) (t : Text) :
    charset.decode (charset.encode t) = t.map fun c => if charset.Holds c then c else '?' := by
  cases charset with
  | utf8 =>
    have all : (fun c => if Holds utf8 c then c else '?') = id := funext fun _ => if_pos trivial
    rw [decode_utf8_encode, all, List.map_id]
  | latin1 =>
    rw [encode_latin1]
    exact map_ofNat_encodeUpTo (by decide) (by decide) t
  | ascii =>
    rw [decode_ascii, encode_ascii, decodeAscii, encodeUpTo, List.map_map]
    refine List.map_congr_left fun c _ => ?_
    rw [Function.comp_apply]
    by_cases small : c.toNat ≤ 0x7F
    · rw [if_pos small, if_pos (show Holds ascii c from small), toNat_toUInt8 (by omega), if_pos (by omega),
        Char.ofNat_toNat]
    · rw [if_neg small, if_neg (show ¬ Holds ascii c from small)]
      rfl

/-- A byte is the code of the character that it is read as. -/
theorem toNat_ofNat_byte (b : UInt8) : (Char.ofNat b.toNat).toNat = b.toNat := by
  have small := b.toNat_lt
  have valid : b.toNat.isValidChar := .inl (by omega)
  exact (eq_ofNat_iff valid).mp rfl

theorem encode_decode_latin1 (bytes : List UInt8) : latin1.encode (latin1.decode bytes) = bytes := by
  rw [encode_latin1, encodeUpTo, decode, List.map_map]
  refine List.map_id'' (fun b => ?_) bytes
  have small := b.toNat_lt
  rw [Function.comp_apply, toNat_ofNat_byte, if_pos (by omega), toUInt8_toNat]

theorem encode_decode_ascii (bytes : List UInt8) :
    ascii.encode (ascii.decode bytes) = bytes ↔ ∀ b ∈ bytes, b.toNat < 0x80 := by
  rw [encode_ascii, decode_ascii, encodeUpTo, decodeAscii, List.map_map]
  conv => lhs; rhs; rw [← List.map_id bytes]
  refine List.map_inj_left.trans (forall₂_congr fun b _ => ?_)
  rw [Function.comp_apply, id_eq]
  constructor
  · intro kept
    refine Nat.lt_of_not_le fun high => ?_
    rw [if_neg (Nat.not_lt.mpr high), if_neg (by decide)] at kept
    exact absurd high (kept ▸ by decide)
  · intro small
    rw [if_pos small, toNat_ofNat_byte, if_pos (by omega), toUInt8_toNat]

theorem encode_decode_utf8 (bytes : List UInt8) :
    utf8.encode (utf8.decode bytes) = bytes ↔ bytes.toByteArray.IsValidUTF8 := by
  constructor
  · intro kept
    refine ⟨utf8.decode bytes, ?_⟩
    rw [utf8Encode_eq, kept]
  · rintro ⟨t, spelled⟩
    rw [utf8Encode_eq, List.toByteArray_inj] at spelled
    rw [spelled, decode_utf8_encode]

/-- What charsets make of text and bytes, there and back, and of bytes that stand for no text. -/
theorem charsets_round_trip :
    (∀ (charset : Charset) (s t : Text),
      charset.decode (charset.encode s) = s.map (fun c => if charset.Holds c then c else '?') ∧
      charset.encode (s ++ t) = charset.encode s ++ charset.encode t) ∧
    (∀ bytes : List UInt8,
      latin1.encode (latin1.decode bytes) = bytes ∧
      (ascii.encode (ascii.decode bytes) = bytes ↔ ∀ b ∈ bytes, b.toNat < 0x80) ∧
      (utf8.encode (utf8.decode bytes) = bytes ↔ bytes.toByteArray.IsValidUTF8)) ∧
    (∀ (bytes : List UInt8) (t : Text), DecodesTo bytes t ↔ utf8.decode bytes = t) ∧
    (∀ t : Text, latin1.encode t = encodeUpTo 0xFF t ∧ ascii.encode t = encodeUpTo 0x7F t) ∧
    ∀ bytes : List UInt8, ascii.decode bytes =
      bytes.map fun b => if b.toNat < 0x80 then Char.ofNat b.toNat else replacement :=
  ⟨fun charset s t => ⟨decode_encode charset s, encode_append charset s t⟩,
    fun bytes => ⟨encode_decode_latin1 bytes, encode_decode_ascii bytes, encode_decode_utf8 bytes⟩,
    fun _ _ => decodesTo_iff, fun t => ⟨encode_latin1 t, encode_ascii t⟩, decode_ascii⟩

/-- A character that breaks off is one replacement, a byte that begins none is another. -/
example : utf8.decode [0x61, 0xE2, 0x82, 0xE4, 0xC3, 0xA4] = "a\ufffd\ufffdä".toList := by decide

end Charset

end MarkupTemplates
