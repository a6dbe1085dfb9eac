import MarkupTemplates.Proofs.Charset.Utf8

namespace MarkupTemplates

/-- Bytes in front of `rest` that are no character, though some may begin so: as many of them as there are, but
one in any case. -/
structure Malformed (bad rest : List UInt8) : Prop where
  some_bytes : bad ≠ []
  no_char : ∀ c, String.utf8EncodeChar c ≠ bad
  begun : bad.length = 1 ∨ ∃ c tail, String.utf8EncodeChar c = bad ++ tail
  longest : ∀ b more c tail, rest = b :: more → String.utf8EncodeChar c ≠ bad ++ b :: tail

/-- Bytes are read character by character, with one replacement for bytes that are malformed. -/
inductive DecodesTo : List UInt8 → Text → Prop
  | nil : DecodesTo [] []
  | char {c : Char} {rest : List UInt8} {t : Text} :
      DecodesTo rest t → DecodesTo (String.utf8EncodeChar c ++ rest) (c :: t)
  | malformed {bad rest : List UInt8} {t : Text} :
      Malformed bad rest → DecodesTo rest t → DecodesTo (bad ++ rest) (Charset.replacement :: t)

namespace Charset

/-- The bytes that have been taken in while no character is made of them yet. -/
def Pending : Option Unfinished → List UInt8 → Prop
  | none, read => read = []
  | some u, read => u.Begun read

/-- What a byte comes to when others are pending. -/
inductive Taken (read : List UInt8) (b : UInt8) : Option Unfinished → Text × Option Unfinished → Prop
  | ends {state : Option Unfinished} {c : Char} :
      (∀ c' tail, String.utf8EncodeChar c' = read ++ b :: tail ↔ c' = c ∧ tail = []) → Taken read b state ([c], none)
  | goesOn {state : Option Unfinished} {u : Unfinished} :
      u.Begun (read ++ [b]) → Taken read b state ([], some u)
  | alone : read = [] → (∀ c tail, String.utf8EncodeChar c ≠ b :: tail) → Taken read b none ([replacement], none)
  | breaks {u : Unfinished} : u.Begun read → (∀ c tail, String.utf8EncodeChar c ≠ read ++ b :: tail) →
      Taken read b (some u) (replacement :: (beginUtf8 b.toNat).1, (beginUtf8 b.toNat).2)

variable {state : Option Unfinished} {read : List UInt8}

theorem pending_none : Pending none [] := rfl

theorem pending_some {u : Unfinished} (begun : u.Begun read) : Pending (some u) read := begun

theorem taken (pending : Pending state read) (b : UInt8) : Taken read b state (stepUtf8 state b.toNat) := by
  cases state with
  | none =>
    obtain rfl : read = [] := pending
    rw [stepUtf8]
    obtain ⟨c, found, begins⟩ | ⟨u, found, begun⟩ | ⟨found, none⟩ := beginUtf8_cases b
    · exact found ▸ .ends begins
    · exact found ▸ .goesOn begun
    · exact found ▸ .alone rfl none
  | some u =>
    have begun : u.Begun read := pending
    simp only [stepUtf8]
    split
    · next inside =>
      split
      · next one => exact .ends (begun.last inside one)
      · next more => exact .goesOn (begun.next inside (Nat.lt_of_not_le more))
    · next outside => exact .breaks begun fun c tail spelled => outside (begun.begins_cons.mp spelled).1

theorem decodeUtf8_cons (state : Option Unfinished) (b : UInt8) (rest : List UInt8) :
    decodeUtf8 state (b :: rest) =
      (stepUtf8 state b.toNat).1 ++ decodeUtf8 (stepUtf8 state b.toNat).2 rest := rfl

theorem decodesTo_decodeUtf8 (bytes : List UInt8) (pending : Pending state read) :
    DecodesTo (read ++ bytes) (decodeUtf8 state bytes) := by
  induction bytes generalizing state read with
  | nil =>
    cases state with
    | none =>
      obtain rfl : read = [] := pending
      exact .nil
    | some u =>
      have begun : u.Begun read := pending
      obtain ⟨c, b, tail, spelled⟩ := begun.exists_char
      exact .malformed ⟨begun.some_read, begun.not_char, .inr ⟨c, b :: tail, spelled⟩, nofun⟩ .nil
  | cons b rest ih =>
    have next {state read} (pending : Pending state read)
        (anew : state ≠ none → DecodesTo (b :: rest) (decodeUtf8 none (b :: rest))) :
        DecodesTo (read ++ b :: rest) (decodeUtf8 state (b :: rest)) := by
      have taken := taken pending b
      rw [decodeUtf8_cons]
      generalize stepUtf8 state b.toNat = step at taken ⊢
      cases taken with
      | @ends _ c begins =>
        have whole := (begins c []).mpr ⟨rfl, rfl⟩
        rw [← List.singleton_append, ← List.append_assoc, ← whole]
        exact .char (ih pending_none)
      | goesOn begun =>
        rw [← List.singleton_append, ← List.append_assoc]
        exact ih begun
      | alone nothing unfit =>
        subst nothing
        have malformed : Malformed [b] rest :=
          ⟨List.cons_ne_nil _ _, fun c => unfit c [], .inl rfl, fun d _ c tail _ => unfit c (d :: tail)⟩
        exact show DecodesTo ([b] ++ rest) _ from .malformed malformed (ih pending_none)
      | breaks begun unfit =>
        obtain ⟨c, d, tail, spelled⟩ := begun.exists_char
        refine .malformed ⟨begun.some_read, begun.not_char, .inr ⟨c, d :: tail, spelled⟩, ?_⟩ (anew nofun)
        intro d more c tail eq
        obtain ⟨rfl, rfl⟩ := List.cons.inj eq
        exact unfit c tail
    -- a byte that does not fit what is pending is taken in anew
    exact next pending fun _ => next pending_none fun some => absurd rfl some

/-- The bytes of a character are read as the character. -/
theorem decodeUtf8_char {c : Char} {tail : List UInt8} (pending : Pending state read) (some_tail : tail ≠ [])
    (spelled : String.utf8EncodeChar c = read ++ tail) (rest : List UInt8) :
    decodeUtf8 state (tail ++ rest) = c :: decodeUtf8 none rest := by
  induction tail generalizing state read with
  | nil => exact absurd rfl some_tail
  | cons b tail ih =>
    have taken := taken pending b
    rw [List.cons_append, decodeUtf8_cons]
    generalize stepUtf8 state b.toNat = step at taken ⊢
    cases taken with
    | ends begins =>
      obtain ⟨rfl, rfl⟩ := (begins c tail).mp spelled
      rfl
    | goesOn begun =>
      rw [← List.singleton_append, ← List.append_assoc] at spelled
      refine ih begun ?_ spelled
      rintro rfl
      exact begun.not_char c (by rw [spelled, List.append_nil])
    | alone nothing unfit =>
      subst nothing
      exact absurd spelled (unfit c tail)
    | breaks _ unfit => exact absurd spelled (unfit c tail)

/-- Malformed bytes are read as a replacement. -/
theorem decodeUtf8_malformed {bad rest : List UInt8} (pending : Pending state read)
    (malformed : Malformed (read ++ bad) rest) :
    decodeUtf8 state (bad ++ rest) = replacement :: decodeUtf8 none rest := by
  induction bad generalizing state read with
  | nil =>
    rw [List.append_nil] at malformed
    cases state with
    | none => exact absurd pending malformed.some_bytes
    | some u =>
      cases rest with
      | nil => rfl
      | cons b more =>
        have taken := taken pending b
        rw [List.nil_append, decodeUtf8_cons]
        generalize stepUtf8 (some u) b.toNat = step at taken ⊢
        cases taken with
        | @ends _ c begins => exact absurd ((begins c []).mpr ⟨rfl, rfl⟩) (malformed.longest b more c [] rfl)
        | goesOn begun =>
          obtain ⟨c, d, tail, spelled⟩ := begun.exists_char
          rw [List.append_assoc, List.singleton_append] at spelled
          exact absurd spelled (malformed.longest b more c (d :: tail) rfl)
        | breaks => rfl
  | cons b bad ih =>
    have taken := taken pending b
    rw [List.cons_append, decodeUtf8_cons]
    generalize stepUtf8 state b.toNat = step at taken ⊢
    cases taken with
    | @ends _ c begins =>
      have whole := (begins c []).mpr ⟨rfl, rfl⟩
      obtain ⟨one⟩ | ⟨c', tail, spelled⟩ := malformed.begun
      · obtain rfl : bad = [] := by
          rw [List.length_append, List.length_cons] at one
          exact List.eq_nil_of_length_eq_zero (by omega)
        exact absurd whole (malformed.no_char c)
      · rw [List.append_assoc, List.cons_append] at spelled
        obtain ⟨rfl, nothing⟩ := (begins c' (bad ++ tail)).mp spelled
        obtain ⟨rfl, _⟩ := List.append_eq_nil_iff.mp nothing
        exact absurd whole (malformed.no_char c')
    | goesOn begun =>
      refine ih begun ?_
      rwa [List.append_assoc, List.singleton_append]
    | alone nothing unfit =>
      subst nothing
      obtain one | ⟨c, tail, spelled⟩ := malformed.begun
      · obtain rfl : bad = [] := List.eq_nil_of_length_eq_zero (Nat.succ.inj one)
        rfl
      · exact absurd spelled (unfit c (bad ++ tail))
    | breaks begun unfit =>
      obtain one | ⟨c, tail, spelled⟩ := malformed.begun
      · have some_read := List.length_pos_iff.mpr begun.some_read
        rw [List.length_append, List.length_cons] at one
        omega
      · rw [List.append_assoc, List.cons_append] at spelled
        exact absurd spelled (unfit c (bad ++ tail))

/-- What bytes are read as is determined by which of them are characters and which are malformed. -/
theorem decodesTo_iff {bytes : List UInt8} {t : Text} : DecodesTo bytes t ↔ utf8.decode bytes = t := by
  constructor
  · intro reads
    rw [decode]
    induction reads with
    | nil => rfl
    | @char c rest t _ ih =>
      have some_bytes : String.utf8EncodeChar c ≠ [] := String.utf8EncodeChar_ne_nil
      rw [decodeUtf8_char pending_none some_bytes rfl, ih]
    | malformed bad _ ih => rw [decodeUtf8_malformed pending_none bad, ih]
  · rintro rfl
    exact decodesTo_decodeUtf8 bytes pending_none

end Charset

end MarkupTemplates
