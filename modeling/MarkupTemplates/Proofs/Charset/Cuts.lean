import MarkupTemplates.Proofs.Charset.Decoding
import MarkupTemplates.Output

namespace MarkupTemplates

/-- A cut inside a character: the last bytes in front of it and the first one after it are bytes that some
character begins with. -/
def Divides (a b : List UInt8) : Prop :=
  ∃ before inside first rest c tail, a = before ++ inside ∧ inside ≠ [] ∧ b = first :: rest ∧
    String.utf8EncodeChar c = inside ++ first :: tail

theorem Divides.append_left {a b : List UInt8} (divides : Divides a b) (front : List UInt8) :
    Divides (front ++ a) b := by
  obtain ⟨before, inside, first, rest, c, tail, rfl, found⟩ := divides
  exact ⟨front ++ before, inside, first, rest, c, tail, (List.append_assoc ..).symm, found⟩

/-- Where no character is cut, both parts are read by themselves. -/
theorem DecodesTo.append {a b : List UInt8} {s t : Text} (left : DecodesTo a s) (right : DecodesTo b t)
    (apart : ¬ Divides a b) : DecodesTo (a ++ b) (s ++ t) := by
  induction left with
  | nil => exact right
  | char _ ih =>
    rw [List.append_assoc]
    exact .char (ih fun divides => apart (divides.append_left _))
  | @malformed bad rest _ malformed _ ih =>
    rw [List.append_assoc]
    refine .malformed ⟨malformed.some_bytes, malformed.no_char, malformed.begun, ?_⟩
      (ih fun divides => apart (divides.append_left _))
    intro d more c tail eq spelled
    cases rest with
    | nil => exact apart ⟨[], bad, d, more, c, tail, List.append_nil _, malformed.some_bytes, eq, spelled⟩
    | cons first others =>
      obtain ⟨rfl, _⟩ := List.cons.inj eq
      exact malformed.longest first others c tail rfl spelled

theorem mem_trail {missing n : Nat} {b : UInt8} (inner : b ∈ trail missing n) : 0x80 ≤ b.toNat ∧ b.toNat < 0xC0 := by
  induction missing with
  | zero => cases inner
  | succ missing ih =>
    obtain rfl | later := List.mem_cons.mp inner
    · rw [toNat_toUInt8 (by omega)]
      omega
    · exact ih later

/-- No character begins with a byte that is inside of one. -/
theorem inner_begins_none {c c' : Char} {inside tail tail' : List UInt8} {b : UInt8} (some_inside : inside ≠ [])
    (spelled : String.utf8EncodeChar c = inside ++ b :: tail) : String.utf8EncodeChar c' ≠ b :: tail' := by
  intro begins
  obtain ⟨first, more, rfl⟩ := List.exists_cons_of_ne_nil some_inside
  obtain ⟨missing, _, own⟩ := utf8EncodeChar_eq_cons_iff.mp spelled
  obtain ⟨_, leads, _⟩ := utf8EncodeChar_eq_cons_iff.mp begins
  have inner : b ∈ more.append (b :: tail) := List.mem_append_right _ List.mem_cons_self
  have bounds := mem_trail (own ▸ inner)
  simp only [FirstByte] at leads
  omega

/-- In front of the first byte of a character no character is cut. -/
theorem not_divides_char (before : List UInt8) {c : Char} {tail b : List UInt8} (some_tail : tail ≠ [])
    (begins : ∃ rest, String.utf8EncodeChar c = tail ++ rest) : ¬ Divides before (tail ++ b) := by
  rintro ⟨_, inside, first, _, c', _, _, some_inside, eq, spelled⟩
  obtain ⟨rest, begins⟩ := begins
  obtain ⟨_, more, rfl⟩ := List.exists_cons_of_ne_nil some_tail
  obtain ⟨rfl, _⟩ := List.cons.inj eq
  exact inner_begins_none some_inside spelled begins

namespace Charset

open Unfinished

variable {state : Option Unfinished} {read : List UInt8}

/-- After some bytes of a character the others are awaited. -/
theorem decodeUtf8_begun {c : Char} {part tail : List UInt8} (pending : Pending state read) (some_part : part ≠ [])
    (some_tail : tail ≠ []) (spelled : String.utf8EncodeChar c = read ++ part ++ tail) :
    ∃ u, u.Begun (read ++ part) ∧ ∀ rest, decodeUtf8 state (part ++ rest) = decodeUtf8 (some u) rest := by
  induction part generalizing state read with
  | nil => exact absurd rfl some_part
  | cons b part ih =>
    have begins : String.utf8EncodeChar c = read ++ b :: (part ++ tail) := by rw [spelled, List.append_assoc]; rfl
    have further : part ++ tail ≠ [] := List.append_ne_nil_of_right_ne_nil _ some_tail
    have goesOn : ∃ u, u.Begun (read ++ [b]) ∧ stepUtf8 state b.toNat = ([], some u) := by
      have taken := taken pending b
      generalize stepUtf8 state b.toNat = step at taken ⊢
      cases taken with
      | ends only => exact absurd ((only c _).mp begins).2 further
      | goesOn begun => exact ⟨_, begun, rfl⟩
      | alone nothing unfit => exact absurd (nothing ▸ begins) (unfit c _)
      | breaks _ unfit => exact absurd begins (unfit c _)
    obtain ⟨u, begun, step⟩ := goesOn
    have next (rest : List UInt8) : decodeUtf8 state (b :: part ++ rest) = decodeUtf8 (some u) (part ++ rest) := by
      rw [List.cons_append, decodeUtf8_cons, step]
      rfl
    by_cases done : part = []
    · subst done
      exact ⟨u, begun, next⟩
    · rw [← List.singleton_append, ← List.append_assoc, ← List.append_assoc] at begins
      obtain ⟨v, later, same⟩ := ih (pending_some begun) done begins
      rw [List.append_assoc, List.singleton_append] at later
      exact ⟨v, later, fun rest => (next rest).trans (same rest)⟩

/-- A byte that is inside of characters only is malformed by itself. -/
theorem decodeUtf8_inner {c : Char} {inside tail : List UInt8} {b : UInt8} (some_inside : inside ≠ [])
    (spelled : String.utf8EncodeChar c = inside ++ b :: tail) (rest : List UInt8) :
    decodeUtf8 none (b :: rest) = replacement :: decodeUtf8 none rest := by
  have unfit (c' : Char) (tail' : List UInt8) : String.utf8EncodeChar c' ≠ b :: tail' :=
    inner_begins_none some_inside spelled
  have malformed : Malformed [b] rest :=
    ⟨List.cons_ne_nil _ _, fun c' => unfit c' [], .inl rfl, fun d _ c' tail' _ => unfit c' (d :: tail')⟩
  exact decodeUtf8_malformed pending_none malformed

/-- Bytes that are awaited spare replacements, but for one of the character that awaits them. -/
theorem length_decodeUtf8_begun {u : Unfinished} (begun : u.Begun read) (rest : List UInt8) :
    (decodeUtf8 (some u) rest).length ≤ (decodeUtf8 none rest).length + 1 := by
  induction rest generalizing u read with
  | nil => exact Nat.le_refl 1
  | cons b rest ih =>
    -- a byte that goes on with the character would be one replacement by itself
    have taken := taken (pending_some begun) b
    rw [decodeUtf8_cons (some u)]
    generalize stepUtf8 (some u) b.toNat = step at taken ⊢
    cases taken with
    | @ends _ c only =>
      rw [decodeUtf8_inner begun.some_read ((only c []).mpr ⟨rfl, rfl⟩), List.singleton_append, List.length_cons]
      exact Nat.le_succ _
    | goesOn later =>
      obtain ⟨c, d, tail, spelled⟩ := later.exists_char
      rw [List.append_assoc, List.singleton_append] at spelled
      rw [decodeUtf8_inner begun.some_read spelled, List.nil_append, List.length_cons]
      exact Nat.le_succ_of_le (ih later)
    | breaks => exact Nat.le_refl _

/-- A character that is cut is read as more than otherwise. -/
theorem length_decodeUtf8_cut {c : Char} {inside tail : List UInt8} {b : UInt8} (some_inside : inside ≠ [])
    (spelled : String.utf8EncodeChar c = inside ++ b :: tail) (rest : List UInt8) :
    (decodeUtf8 none (inside ++ b :: rest)).length <
      (decodeUtf8 none inside ++ decodeUtf8 none (b :: rest)).length := by
  have broken : decodeUtf8 none inside = [replacement] := by
    obtain ⟨u, _, awaited⟩ := decodeUtf8_begun pending_none some_inside (List.cons_ne_nil b tail) spelled
    have alone := awaited []
    rwa [List.append_nil] at alone
  have whole : (decodeUtf8 none (inside ++ b :: rest)).length ≤ (decodeUtf8 none rest).length + 1 := by
    have further (more : List UInt8) : inside ++ b :: more = inside ++ [b] ++ more := by
      rw [List.append_assoc, List.singleton_append]
    have some_part : inside ++ [b] ≠ [] := List.append_ne_nil_of_right_ne_nil _ (List.cons_ne_nil b [])
    rw [further] at spelled ⊢
    by_cases last : tail = []
    · rw [last, List.append_nil] at spelled
      rw [decodeUtf8_char pending_none some_part spelled]
      exact Nat.le_refl _
    · obtain ⟨u, begun, awaited⟩ := decodeUtf8_begun pending_none some_part last spelled
      rw [awaited]
      exact length_decodeUtf8_begun begun rest
  rw [broken, decodeUtf8_inner some_inside spelled, List.singleton_append, List.length_cons, List.length_cons]
  exact Nat.lt_succ_of_le whole

theorem decode_append {a b : List UInt8} (apart : ¬ Divides a b) :
    utf8.decode (a ++ b) = utf8.decode a ++ utf8.decode b :=
  decodesTo_iff.mp ((decodesTo_iff.mpr rfl).append (decodesTo_iff.mpr rfl) apart)

/-- Bytes are read in two parts as they are in one, just where no character is cut. -/
theorem decode_append_iff {a b : List UInt8} :
    utf8.decode (a ++ b) = utf8.decode a ++ utf8.decode b ↔ ¬ Divides a b := by
  refine ⟨fun same divides => ?_, decode_append⟩
  obtain ⟨before, inside, first, rest, c, tail, rfl, some_inside, rfl, spelled⟩ := divides
  have aligned (more : List UInt8) :
      utf8.decode (before ++ (inside ++ more)) = utf8.decode before ++ utf8.decode (inside ++ more) :=
    decode_append (not_divides_char before some_inside ⟨_, spelled⟩)
  have front := aligned []
  rw [List.append_nil] at front
  rw [List.append_assoc, aligned, front, List.append_assoc, List.append_cancel_left_eq] at same
  exact absurd (congrArg List.length same) (Nat.ne_of_lt (length_decodeUtf8_cut some_inside spelled rest))

end Charset

namespace Output

/-- Text may be written in parts. So may bytes, but for the bytes of a character when they are read into text. -/
theorem writes_in_parts (output : Output) (charset : Option Charset) :
    (∀ s t : Text, (output.writeText s charset).writeText t charset = output.writeText (s ++ t) charset) ∧
    ∀ a b : List UInt8,
      (output.writeBytes a charset).writeBytes b charset = output.writeBytes (a ++ b) charset ↔
        ¬ ((∃ content, output = .text content) ∧ charset.getD .utf8 = .utf8 ∧ Divides a b) := by
  cases output with
  | text content =>
    refine ⟨fun s t => congrArg text (List.append_assoc content s t), fun a b => ?_⟩
    simp only [writeBytes, List.append_assoc, text.injEq, List.append_cancel_left_eq]
    cases charset.getD .utf8 with
    | utf8 =>
      rw [eq_comm, Charset.decode_append_iff]
      exact not_congr ⟨fun divides => ⟨⟨content, rfl⟩, rfl, divides⟩, fun ⟨_, _, divides⟩ => divides⟩
    | latin1 => exact iff_of_true List.map_append.symm nofun
    | ascii =>
      simp only [Charset.decode_ascii]
      exact iff_of_true (Charset.decodeAscii_append a b).symm nofun
  | bytes content =>
    constructor
    · intro s t
      rw [writeText, writeText, writeText, Charset.encode_append, List.append_assoc]
    · exact fun a b => iff_of_true (congrArg bytes (List.append_assoc content a b)) nofun

/-- Of a character in two parts nothing but replacements is written. -/
theorem character_in_parts :
    ((text []).writeBytes [0xC3] none).writeBytes [0xA4] none ≠ (text []).writeBytes ([0xC3] ++ [0xA4]) none := by
  decide

end Output

end MarkupTemplates
