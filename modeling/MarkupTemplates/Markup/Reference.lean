import MarkupTemplates.Text.Numeral

namespace MarkupTemplates

/-- Code points are written as numbers of 32 bits. -/
def codeBound : Nat := 0x100000000

/-- The character with the given code point, if there is one. -/
def charOfCode? (n : Nat) : Option Char :=
  if n.isValidChar then some (Char.ofNat n) else none

/-- The character that the name between an ampersand and a semicolon stands for. -/
def referenced? (name : Text) : Option Char :=
  if name = ("lt" : Text) then some '<'
  else if name = ("gt" : Text) then some '>'
  else if name = ("amp" : Text) then some '&'
  else if name = ("quot" : Text) then some '"'
  else if name = ("apos" : Text) then some '\''
  else if name = ("nbsp" : Text) then some '\u00a0'
  else match name with
    | '#' :: 'x' :: digits => (Text.unsigned? 16 codeBound digits).bind charOfCode?
    | '#' :: 'X' :: digits => (Text.unsigned? 16 codeBound digits).bind charOfCode?
    | '#' :: digits => (Text.unsigned? 10 codeBound digits).bind charOfCode?
    | _ => none

/-- Reads the reference whose ampersand has just been passed. -/
def reference? (t : Text) : Option (Char × Text) :=
  match t.cutAt? ';' with
  | some (name, rest) => (referenced? name).map fun c => (c, rest)
  | none => none

theorem reference?_length {t rest : Text} {c : Char} (h : reference? t = some (c, rest)) :
    rest.length < t.length := by
  unfold reference? at h
  split at h
  · next name after found =>
    obtain ⟨d, _, eq⟩ := Option.map_eq_some_iff.1 h
    obtain ⟨rfl, rfl⟩ := Prod.mk.inj eq
    rw [Text.eq_append_of_cutAt? found, List.length_append, List.length_cons]
    omega
  · simp at h

/-- The text with its character references resolved. An ampersand that begins no reference stands
for itself. -/
def Text.resolved : Text → Text
  | [] => []
  | c :: t =>
    if c = '&' then
      match h : reference? t with
      | some (d, rest) =>
        have := reference?_length h
        d :: resolved rest
      | none => '&' :: resolved t
    else c :: resolved t
termination_by t => t.length

end MarkupTemplates
