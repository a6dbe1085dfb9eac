import Mathlib.Algebra.Ring.Nat
import MarkupTemplates.Proofs.Charset.Encoding

namespace MarkupTemplates

/-- A character of the code `n` begins with the byte `b`, and so many more follow. -/
def FirstByte (b n missing : Nat) : Prop :=
  missing = 0 ∧ n < 0x80 ∧ b = n ∨
  missing = 1 ∧ 0x80 ≤ n ∧ n < 0x800 ∧ b = 0xC0 + n / 64 ∨
  missing = 2 ∧ 0x800 ≤ n ∧ n < 0x10000 ∧ b = 0xE0 + n / 4096 ∨
  missing = 3 ∧ 0x10000 ≤ n ∧ n < 0x110000 ∧ b = 0xF0 + n / 262144

theorem firstByte_one_iff {b : Nat} (first : 0xC0 ≤ b ∧ b < 0xE0) (n missing : Nat) :
    FirstByte b n missing ↔ missing = 1 ∧ 0x80 ≤ n ∧ n < 0x800 ∧ b = 0xC0 + n / 64 := by
  unfold FirstByte
  omega

theorem firstByte_two_iff {b : Nat} (first : 0xE0 ≤ b ∧ b < 0xF0) (n missing : Nat) :
    FirstByte b n missing ↔ missing = 2 ∧ 0x800 ≤ n ∧ n < 0x10000 ∧ b = 0xE0 + n / 4096 := by
  unfold FirstByte
  omega

theorem firstByte_three_iff {b : Nat} (first : 0xF0 ≤ b) (n missing : Nat) :
    FirstByte b n missing ↔ missing = 3 ∧ 0x10000 ≤ n ∧ n < 0x110000 ∧ b = 0xF0 + n / 262144 := by
  unfold FirstByte
  omega

/-- The bytes of a character after the first one, with six bits each. -/
def trail : Nat → Nat → List UInt8
  | 0, _ => []
  | missing + 1, n => (0x80 + n / 64 ^ missing % 64).toUInt8 :: trail missing n

theorem trail_of_pos {missing : Nat} (some_missing : 0 < missing) (n : Nat) :
    trail missing n = (0x80 + n / 64 ^ (missing - 1) % 64).toUInt8 :: trail (missing - 1) n := by
  obtain ⟨missing, rfl⟩ := Nat.exists_eq_succ_of_ne_zero (Nat.ne_of_gt some_missing)
  rfl

/-- A code is that of the character made of it. -/
theorem eq_ofNat_iff {n : Nat} (valid : n.isValidChar) {c : Char} : c = Char.ofNat n ↔ c.toNat = n := by
  have own : (Char.ofNat n).toNat = n := by
    rw [Char.ofNat, dif_pos valid]
    rfl
  rw [← Char.toNat_inj, own]

theorem FirstByte.unique {b b' n missing missing' : Nat} (one : FirstByte b n missing)
    (other : FirstByte b' n missing') : b = b' ∧ missing = missing' := by
  simp only [FirstByte] at one other
  omega

theorem exists_utf8EncodeChar (c : Char) :
    ∃ b missing, FirstByte b c.toNat missing ∧ String.utf8EncodeChar c = b.toUInt8 :: trail missing c.toNat := by
  have valid : c.toNat.isValidChar := c.valid
  simp only [Nat.isValidChar] at valid
  have six (n : Nat) : n % 64 + 128 = 128 + n % 64 := Nat.add_comm ..
  simp only [String.utf8EncodeChar, show c.val.toNat = c.toNat from rfl, FirstByte]
  split
  · exact ⟨_, 0, by omega, rfl⟩
  split
  · refine ⟨0xC0 + c.toNat / 64, 1, by omega, ?_⟩
    simp only [trail, six, Nat.pow_zero, Nat.div_one]
    rw [show c.toNat / 64 % 32 + 192 = 0xC0 + c.toNat / 64 by omega]
  split
  · refine ⟨0xE0 + c.toNat / 4096, 2, by omega, ?_⟩
    simp only [trail, six, Nat.pow_zero, Nat.pow_one, Nat.div_one]
    rw [show c.toNat / 4096 % 16 + 224 = 0xE0 + c.toNat / 4096 by omega]
  · refine ⟨0xF0 + c.toNat / 262144, 3, by omega, ?_⟩
    simp only [trail, six, Nat.pow_zero, Nat.pow_one, Nat.reducePow, Nat.div_one]
    rw [show c.toNat / 262144 % 8 + 240 = 0xF0 + c.toNat / 262144 by omega]

/-- The first byte of a character tells how many follow. -/
theorem utf8EncodeChar_eq_cons_iff {c : Char} {b : UInt8} {tail : List UInt8} :
    String.utf8EncodeChar c = b :: tail ↔ ∃ missing, FirstByte b.toNat c.toNat missing ∧ tail = trail missing c.toNat := by
  obtain ⟨first, missing, leads, spelled⟩ := exists_utf8EncodeChar c
  rw [spelled, List.cons.injEq]
  constructor
  · rintro ⟨rfl, rfl⟩
    have small : first < 256 := by
      simp only [FirstByte] at leads
      omega
    exact ⟨missing, by rwa [toNat_toUInt8 small], rfl⟩
  · rintro ⟨missing', leads', rfl⟩
    obtain ⟨rfl, rfl⟩ := leads.unique leads'
    exact ⟨toUInt8_toNat b, rfl⟩

namespace Unfinished

/-- A character of the code `n` may be the one that is unfinished: the bits read are its first ones, and the
next six of them make up a byte that may follow. -/
def Fits (u : Unfinished) (n : Nat) : Prop :=
  n / 64 ^ (u.missing - 1) / 64 = u.code ∧
    u.low ≤ 0x80 + n / 64 ^ (u.missing - 1) % 64 ∧ 0x80 + n / 64 ^ (u.missing - 1) % 64 ≤ u.high

/-- What is known of a character when some of its bytes have been read: which characters begin so. -/
structure Begun (u : Unfinished) (read : List UInt8) : Prop where
  some_read : read ≠ []
  missing : 0 < u.missing
  within : 0x80 ≤ u.low ∧ u.low ≤ u.high ∧ u.high ≤ 0xBF
  begins : ∀ c tail, String.utf8EncodeChar c = read ++ tail ↔ u.Fits c.toNat ∧ tail = trail u.missing c.toNat
  valid : ∀ n, u.Fits n → n.isValidChar

/-- The code with the bits of one more byte. -/
def joined (u : Unfinished) (b : UInt8) : Nat := 64 * u.code + (b.toNat - 0x80)

/-- After the first byte. -/
theorem begun_first {b : UInt8} {code missing low high : Nat} {range : Nat → Prop} (some_missing : 0 < missing)
    (within : 0x80 ≤ low ∧ low ≤ high ∧ high ≤ 0xBF)
    (leads : ∀ n missing', FirstByte b.toNat n missing' ↔ missing' = missing ∧ range n)
    (fits : ∀ n, n.isValidChar ∧ range n ↔ Fits ⟨code, missing, low, high⟩ n) :
    Begun ⟨code, missing, low, high⟩ [b] := by
  refine ⟨List.cons_ne_nil _ _, some_missing, within, fun c tail => ?_, fun n own => ((fits n).mpr own).1⟩
  rw [List.singleton_append, utf8EncodeChar_eq_cons_iff, ← fits]
  constructor
  · rintro ⟨missing', led, rfl⟩
    obtain ⟨rfl, inside⟩ := (leads c.toNat missing').mp led
    exact ⟨⟨c.valid, inside⟩, rfl⟩
  · rintro ⟨⟨_, inside⟩, rfl⟩
    exact ⟨missing, (leads c.toNat missing).mpr ⟨rfl, inside⟩, rfl⟩

namespace Begun

variable {u : Unfinished} {read : List UInt8}

/-- A byte that may follow is the next one of the characters that go on with its bits. -/
theorem fits_joined (begun : u.Begun read) {b : UInt8} {n : Nat} :
    u.Fits n ∧ b.toNat = 0x80 + n / 64 ^ (u.missing - 1) % 64 ↔
      (u.low ≤ b.toNat ∧ b.toNat ≤ u.high) ∧ n / 64 ^ (u.missing - 1) = u.joined b := by
  have within := begun.within
  unfold Fits joined
  generalize n / 64 ^ (u.missing - 1) = q
  omega

/-- The characters that begin so and go on with a byte. -/
theorem begins_cons (begun : u.Begun read) {c : Char} {b : UInt8} {tail : List UInt8} :
    String.utf8EncodeChar c = read ++ b :: tail ↔ (u.low ≤ b.toNat ∧ b.toNat ≤ u.high) ∧
      c.toNat / 64 ^ (u.missing - 1) = u.joined b ∧ tail = trail (u.missing - 1) c.toNat := by
  have own : b = (0x80 + c.toNat / 64 ^ (u.missing - 1) % 64).toUInt8 ↔
      b.toNat = 0x80 + c.toNat / 64 ^ (u.missing - 1) % 64 := by
    rw [← UInt8.toNat_inj, toNat_toUInt8 (by omega)]
  rw [begun.begins, trail_of_pos begun.missing, List.cons.injEq, own, ← and_assoc, begun.fits_joined, and_assoc]

/-- After one more byte, if it is not the last one. -/
theorem next (begun : u.Begun read) {b : UInt8} (inside : u.low ≤ b.toNat ∧ b.toNat ≤ u.high)
    (more : 1 < u.missing) : Begun ⟨u.joined b, u.missing - 1, 0x80, 0xBF⟩ (read ++ [b]) := by
  have split (n : Nat) : n / 64 ^ (u.missing - 1 - 1) / 64 = n / 64 ^ (u.missing - 1) := by
    rw [Nat.div_div_eq_div_mul, ← Nat.pow_succ, show (u.missing - 1 - 1).succ = u.missing - 1 by omega]
  have fits (n : Nat) : Fits ⟨u.joined b, u.missing - 1, 0x80, 0xBF⟩ n ↔
      n / 64 ^ (u.missing - 1) = u.joined b := by
    simp only [Fits, split]
    omega
  have within : 0x80 ≤ 0x80 ∧ 0x80 ≤ 0xBF ∧ 0xBF ≤ 0xBF := by decide
  refine ⟨List.append_ne_nil_of_right_ne_nil _ (List.cons_ne_nil _ _), Nat.sub_pos_of_lt more, within, fun c tail => ?_,
    fun n own => ?_⟩
  · rw [List.append_assoc, List.singleton_append, begun.begins_cons, fits]
    exact and_iff_right inside
  · exact begun.valid n (begun.fits_joined.mpr ⟨inside, (fits n).mp own⟩).1

/-- After the last byte. -/
theorem last (begun : u.Begun read) {b : UInt8} (inside : u.low ≤ b.toNat ∧ b.toNat ≤ u.high)
    (one : u.missing ≤ 1) (c : Char) (tail : List UInt8) :
    String.utf8EncodeChar c = read ++ b :: tail ↔ c = Char.ofNat (u.joined b) ∧ tail = [] := by
  have none_missing : u.missing - 1 = 0 := Nat.sub_eq_zero_of_le one
  have valid : (u.joined b).isValidChar := by
    refine begun.valid _ (begun.fits_joined.mpr ⟨inside, ?_⟩).1
    rw [none_missing, Nat.pow_zero, Nat.div_one]
  rw [begun.begins_cons, eq_ofNat_iff valid, none_missing, Nat.pow_zero, Nat.div_one]
  exact and_iff_right inside

theorem not_char (begun : u.Begun read) (c : Char) : String.utf8EncodeChar c ≠ read := by
  intro whole
  obtain ⟨_, nothing⟩ := (begun.begins c []).mp (by rw [whole, List.append_nil])
  rw [trail_of_pos begun.missing] at nothing
  cases nothing

/-- Some character begins so. -/
theorem exists_char (begun : u.Begun read) : ∃ c b tail, String.utf8EncodeChar c = read ++ b :: tail := by
  have within := begun.within
  have low : u.low.toUInt8.toNat = u.low := toNat_toUInt8 (by omega)
  have inside : u.low ≤ u.low.toUInt8.toNat ∧ u.low.toUInt8.toNat ≤ u.high := by omega
  have quotient : u.joined u.low.toUInt8 * 64 ^ (u.missing - 1) / 64 ^ (u.missing - 1) = u.joined u.low.toUInt8 :=
    Nat.mul_div_cancel _ (Nat.pow_pos (by decide))
  have own := (eq_ofNat_iff (begun.valid _ (begun.fits_joined.mpr ⟨inside, quotient⟩).1)).mp rfl
  exact ⟨_, u.low.toUInt8, _, begun.begins_cons.mpr ⟨inside, own ▸ quotient, rfl⟩⟩

end Begun

end Unfinished

namespace Charset

open Unfinished

/-- What a first byte comes to: it is a character, or it begins some, or none begins with it. -/
theorem beginUtf8_cases (b : UInt8) :
    (∃ c, beginUtf8 b.toNat = ([c], none) ∧
      ∀ c' tail, String.utf8EncodeChar c' = b :: tail ↔ c' = c ∧ tail = []) ∨
    (∃ u, beginUtf8 b.toNat = ([], some u) ∧ u.Begun [b]) ∨
    (beginUtf8 b.toNat = ([replacement], none) ∧ ∀ c tail, String.utf8EncodeChar c ≠ b :: tail) := by
  have bound := b.toNat_lt
  generalize found : beginUtf8 b.toNat = step
  unfold beginUtf8 at found
  split at found
  · next small =>
    have valid : b.toNat.isValidChar := .inl (by omega)
    refine .inl ⟨_, found.symm, fun c tail => ?_⟩
    rw [eq_ofNat_iff valid, utf8EncodeChar_eq_cons_iff]
    constructor
    · rintro ⟨missing, leads, rfl⟩
      obtain ⟨rfl, eq⟩ : missing = 0 ∧ c.toNat = b.toNat := by
        simp only [FirstByte] at leads
        omega
      exact ⟨eq, rfl⟩
    · rintro ⟨eq, rfl⟩
      exact ⟨0, .inl ⟨rfl, eq ▸ small, eq.symm⟩, rfl⟩
  -- the bounds of the second byte leave out longer forms than needed, surrogates and codes beyond the last one
  split at found
  · refine .inr (.inl ⟨_, found.symm, begun_first (by omega) (by omega) (firstByte_one_iff (by omega)) fun n => ?_⟩)
    simp only [Fits, Nat.isValidChar, Nat.reduceSub, Nat.reducePow, Nat.div_one]
    omega
  split at found
  · refine .inr (.inl ⟨_, found.symm, begun_first (by omega) (by omega) (firstByte_two_iff (by omega)) fun n => ?_⟩)
    simp only [Fits, Nat.isValidChar, Nat.reduceSub, Nat.reducePow]
    omega
  split at found
  · refine .inr (.inl ⟨_, found.symm, begun_first (by omega) (by omega) (firstByte_two_iff (by omega)) fun n => ?_⟩)
    simp only [Fits, Nat.isValidChar, Nat.reduceSub, Nat.reducePow]
    omega
  split at found
  · refine .inr (.inl ⟨_, found.symm, begun_first (by omega) (by omega) (firstByte_two_iff (by omega)) fun n => ?_⟩)
    simp only [Fits, Nat.isValidChar, Nat.reduceSub, Nat.reducePow]
    omega
  split at found
  · refine .inr (.inl ⟨_, found.symm, begun_first (by omega) (by omega) (firstByte_three_iff (by omega)) fun n => ?_⟩)
    simp only [Fits, Nat.isValidChar, Nat.reduceSub, Nat.reducePow]
    omega
  split at found
  · refine .inr (.inl ⟨_, found.symm, begun_first (by omega) (by omega) (firstByte_three_iff (by omega)) fun n => ?_⟩)
    simp only [Fits, Nat.isValidChar, Nat.reduceSub, Nat.reducePow]
    omega
  split at found
  · refine .inr (.inl ⟨_, found.symm, begun_first (by omega) (by omega) (firstByte_three_iff (by omega)) fun n => ?_⟩)
    simp only [Fits, Nat.isValidChar, Nat.reduceSub, Nat.reducePow]
    omega
  · refine .inr (.inr ⟨found.symm, fun c tail spelled => ?_⟩)
    obtain ⟨missing, leads, _⟩ := utf8EncodeChar_eq_cons_iff.mp spelled
    have valid : c.toNat.isValidChar := c.valid
    simp only [FirstByte, Nat.isValidChar] at leads valid
    omega

end Charset

end MarkupTemplates
