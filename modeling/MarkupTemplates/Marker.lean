import MarkupTemplates.Text.Numeral

namespace MarkupTemplates

/-- A parsed document holds code between text. A piece of code tells how many bytes of the source
it stands for, so that positions in the document can be traced back. -/
inductive Chunk where
  | text (text : Text)
  | code (length : Nat) (code : Text)
  deriving DecidableEq, Repr

namespace Marker

/-- The control characters that enclose a piece of code. -/
def opening : Char := '\x02'

def closing : Char := '\x03'

end Marker

/-- A piece of code in its place: the length, a colon and the code between the two marks. -/
def marker (length : Nat) (code : Text) : Text :=
  Marker.opening :: Text.ofNat length ++ ':' :: code ++ [Marker.closing]

namespace Marker

def isCodeChar (c : Char) : Bool := c != opening && c != closing

/-- Lengths are numbers of 64 bits. -/
def lengthBound : Nat := 0x10000000000000000

/-- Reads the marker whose opening mark has just been passed. -/
def read? (t : Text) : Option (Nat × Text × Text) :=
  match (Text.natural? 10 (t.takeWhile Char.isDigit)).filter (· < lengthBound), t.dropWhile Char.isDigit with
  | some length, ':' :: t =>
    match t.dropWhile isCodeChar with
    | c :: rest => if c = closing then some (length, t.takeWhile isCodeChar, rest) else none
    | [] => none
  | _, _ => none

theorem read?_length {t code rest : Text} {length : Nat} (h : read? t = some (length, code, rest)) :
    rest.length < t.length := by
  unfold read? at h
  split at h
  · next inner _ afterDigits =>
    split at h
    · next c after afterCode =>
      split at h
      · obtain ⟨-, -, rfl⟩ : _ ∧ _ ∧ after = rest := by simpa using h
        have digits := (List.dropWhile_sublist (l := t) Char.isDigit).length_le
        have chars := (List.dropWhile_sublist (l := inner) isCodeChar).length_le
        rw [afterDigits, List.length_cons] at digits
        rw [afterCode, List.length_cons] at chars
        omega
      · simp at h
    · simp at h
  · simp at h

end Marker

/-- A character of text in front of chunks. -/
def Chunk.push (c : Char) : List Chunk → List Chunk
  | .text t :: rest => .text (c :: t) :: rest
  | chunks => .text [c] :: chunks

/-- The chunks of a document, with the longest possible stretches of text. What is no whole marker
is text. -/
def Text.chunks : Text → List Chunk
  | [] => []
  | c :: t =>
    if c = Marker.opening then
      match h : Marker.read? t with
      | some (length, code, rest) =>
        have := Marker.read?_length h
        .code length code :: chunks rest
      | none => Chunk.push c (chunks t)
    else Chunk.push c (chunks t)
termination_by t => t.length

end MarkupTemplates
