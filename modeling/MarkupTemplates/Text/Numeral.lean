import MarkupTemplates.Text.Basic

namespace MarkupTemplates

/-- The value of a digit; letters of either case count on from ten. -/
def digitValue (c : Char) : Nat :=
  if c.isDigit then c.toNat - '0'.toNat
  else if 'a' ≤ c ∧ c ≤ 'z' then c.toNat - 'a'.toNat + 10
  else if 'A' ≤ c ∧ c ≤ 'Z' then c.toNat - 'A'.toNat + 10
  else 36

namespace Text

/-- The number that the digits denote in the given base, read from the left. -/
def ofDigits (base : Nat) (digits : Text) : Nat :=
  digits.foldl (fun n c => base * n + digitValue c) 0

/-- A number written with one or more digits of the base and nothing else. -/
def natural? (base : Nat) (t : Text) : Option Nat :=
  if t ≠ [] ∧ t.all (digitValue · < base) then some (ofDigits base t) else none

/-- A number below `bound`, with a plus sign or without a sign. -/
def unsigned? (base bound : Nat) (t : Text) : Option Nat :=
  (natural? base ((after? ['+'] t).getD t)).filter (· < bound)

/-- What a number of 64 bits with sign falls short of; only the least one is as far from zero. -/
def bound64 : Nat := 0x8000000000000000

/-- A decimal number of 64 bits with sign, which may be left out when it is a plus. -/
def signed64? (t : Text) : Option Int :=
  match after? ['-'] t with
  | some digits => ((natural? 10 digits).filter (· ≤ bound64)).map fun n => -(n : Int)
  | none => (unsigned? 10 bound64 t).map fun n => (n : Int)

/-- The decimal digits of a number. -/
def ofNat (n : Nat) : Text := Nat.toDigits 10 n

def ofInt : Int → Text
  | .ofNat n => ofNat n
  | .negSucc n => '-' :: ofNat (n + 1)

end Text

end MarkupTemplates
