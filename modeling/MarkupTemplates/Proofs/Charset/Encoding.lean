import MarkupTemplates.Charset

namespace MarkupTemplates

theorem toNat_toUInt8 {n : Nat} (small : n < 256) : n.toUInt8.toNat = n := UInt8.toNat_ofNat_of_lt' small

theorem toUInt8_toNat (b : UInt8) : b.toNat.toUInt8 = b := UInt8.ofNat_toNat

theorem utf8EncodeChar_ascii {c : Char} (ascii : c.toNat < 0x80) :
    String.utf8EncodeChar c = [c.toNat.toUInt8] := by
  rw [String.utf8EncodeChar]
  exact if_pos (Nat.le_of_lt_succ ascii)

theorem Text.isAscii_iff {t : Text} : Text.isAscii t = true ↔ ∀ c ∈ t, c.toNat < 0x80 := by
  simp only [isAscii, List.all_eq_true, decide_eq_true_eq]

namespace Charset

/-- The characters that a charset has bytes for. -/
def Holds : Charset → Char → Prop
  | utf8, _ => True
  | latin1, c => c.toNat ≤ 0xFF
  | ascii, c => c.toNat ≤ 0x7F

instance (charset : Charset) (c : Char) : Decidable (charset.Holds c) :=
  match charset with
  | utf8 => inferInstanceAs (Decidable True)
  | latin1 => inferInstanceAs (Decidable (c.toNat ≤ 0xFF))
  | ascii => inferInstanceAs (Decidable (c.toNat ≤ 0x7F))

/-- Text of ASCII alone has the same bytes in UTF-8 as in characters of one byte. -/
theorem encodeUpTo_of_ascii {limit : Nat} (high : 0x7F ≤ limit) {t : Text} (small : ∀ c ∈ t, c.toNat < 0x80) :
    t.flatMap String.utf8EncodeChar = encodeUpTo limit t := by
  induction t with
  | nil => rfl
  | cons c t ih =>
    obtain ⟨first, others⟩ := List.forall_mem_cons.mp small
    rw [List.flatMap_cons, ih others, utf8EncodeChar_ascii first, encodeUpTo, encodeUpTo, List.map_cons,
      if_pos (by omega)]
    rfl

theorem encode_latin1 (t : Text) : latin1.encode t = encodeUpTo 0xFF t := by
  rw [encode]
  split
  · next small => exact encodeUpTo_of_ascii (by decide) (Text.isAscii_iff.mp small)
  · rfl

theorem encode_ascii (t : Text) : ascii.encode t = encodeUpTo 0x7F t := by
  rw [encode]
  split
  · next small => exact encodeUpTo_of_ascii (by decide) (Text.isAscii_iff.mp small)
  · rfl

theorem encode_append (charset : Charset) (s t : Text) :
    charset.encode (s ++ t) = charset.encode s ++ charset.encode t := by
  cases charset with
  | utf8 => exact List.flatMap_append
  | latin1 => simp only [encode_latin1, encodeUpTo, List.map_append]
  | ascii => simp only [encode_ascii, encodeUpTo, List.map_append]

/-- Characters of one byte are read from their bytes. -/
theorem map_ofNat_encodeUpTo {limit : Nat} (low : 0x3F ≤ limit) (high : limit ≤ 0xFF) (t : Text) :
    (encodeUpTo limit t).map (fun b => Char.ofNat b.toNat) = t.map fun c => if c.toNat ≤ limit then c else '?' := by
  rw [encodeUpTo, List.map_map]
  refine List.map_congr_left fun c _ => ?_
  rw [Function.comp_apply]
  split
  · next small => rw [toNat_toUInt8 (by omega), Char.ofNat_toNat]
  · rfl

theorem decodeAscii_append (a b : List UInt8) : decodeAscii (a ++ b) = decodeAscii a ++ decodeAscii b :=
  List.map_append

theorem decodeAscii_of_ascii {t : Text} (small : ∀ c ∈ t, c.toNat < 0x80) :
    decodeAscii (t.flatMap String.utf8EncodeChar) = t := by
  induction t with
  | nil => rfl
  | cons c t ih =>
    obtain ⟨first, others⟩ := List.forall_mem_cons.mp small
    rw [List.flatMap_cons, decodeAscii_append, ih others, utf8EncodeChar_ascii first, decodeAscii, List.map_singleton,
      toNat_toUInt8 (by omega), if_pos first, Char.ofNat_toNat, List.singleton_append]

/-- Bytes that are read as UTF-8 and turn out to be ASCII are read alike one by one. -/
theorem decode_ascii (bytes : List UInt8) : ascii.decode bytes = decodeAscii bytes := by
  rw [decode]
  split
  · next s read =>
    split
    · next small =>
      obtain ⟨valid, own⟩ := Option.dite_none_right_eq_some.mp read
      have spelled : s.toList.utf8Encode = bytes.toByteArray := by
        rw [String.utf8Encode_toList, ← Option.some.inj own]
        rfl
      rw [← List.toByteArray_inj.mp spelled, decodeAscii_of_ascii (Text.isAscii_iff.mp small)]
    · rfl
  · rfl

end Charset

end MarkupTemplates
