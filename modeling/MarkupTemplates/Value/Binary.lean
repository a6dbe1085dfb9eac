import MarkupTemplates.Text.Numeral

namespace MarkupTemplates

/-- What a binary floating-point format can hold. A finite number is the mantissa times two to the
exponent; zero has a sign, too. -/
inductive Binary where
  | nan
  | infinite (negative : Bool)
  | finite (negative : Bool) (mantissa : Nat) (exponent : Int)
  deriving DecidableEq, Repr

/-- How a format spreads its bits over fraction and exponent; the sign has the highest bit. -/
structure BinaryFormat where
  fractionBits : Nat
  exponentBits : Nat
  deriving DecidableEq, Repr

namespace BinaryFormat

def single : BinaryFormat := ⟨23, 8⟩

def double : BinaryFormat := ⟨52, 11⟩

/-- The exponent of the smallest numbers, and of all whose leading bit is not set. -/
def leastExponent (f : BinaryFormat) : Int := 2 - Nat.pow 2 (f.exponentBits - 1) - f.fractionBits

/-- The mantissa of the numbers below which the next smaller one is only half as far away. -/
def leadingBit (f : BinaryFormat) : Nat := Nat.pow 2 f.fractionBits

/-- The number that the bits stand for. -/
def read (f : BinaryFormat) (bits : Nat) : Binary :=
  let scales := Nat.pow 2 f.exponentBits
  let fraction := bits % f.leadingBit
  let scale := bits / f.leadingBit % scales
  let negative : Bool := bits / (f.leadingBit * scales) % 2 = 1
  if scale = scales - 1 then
    if fraction = 0 then .infinite negative else .nan
  else if scale = 0 then .finite negative fraction f.leastExponent
  else .finite negative (f.leadingBit + fraction) (f.leastExponent + (scale - 1 : Nat))

end BinaryFormat

namespace Binary

/-- How many bits of a whole number the format of double precision keeps. -/
def precision : Nat := 53

/-- A whole number to the nearest one of double precision; half-way the mantissa becomes even. -/
def ofNat (negative : Bool) (n : Nat) : Binary :=
  let excess := Nat.log2 n + 1 - precision
  let unit := Nat.pow 2 excess
  let whole := n / unit
  let rest := n % unit
  let up := unit < 2 * rest ∨ (unit = 2 * rest ∧ whole % 2 = 1)
  .finite negative (if up then whole + 1 else whole) excess

def ofInt (n : Int) : Binary := ofNat (n < 0) n.natAbs

/-- A finite number in units of the least one of double precision. -/
def inUnits (negative : Bool) (mantissa : Nat) (exponent : Int) : Int :=
  let size : Int := mantissa * Nat.pow 2 (exponent - BinaryFormat.double.leastExponent).toNat
  if negative then -size else size

/-- The order of numbers. What is no number has no place in it. -/
def order? : Binary → Binary → Option Ordering
  | nan, _ => none
  | _, nan => none
  | infinite a, infinite b => some (compare b a)
  | infinite a, finite .. => some (if a then .lt else .gt)
  | finite .., infinite b => some (if b then .gt else .lt)
  | finite a m e, finite b n k => some (compare (inUnits a m e) (inUnits b n k))

def isZero : Binary → Bool
  | finite _ mantissa _ => mantissa = 0
  | _ => false

/-- The whole part, within the bounds of 64 bits with sign. -/
def truncated : Binary → Int
  | nan => 0
  | infinite negative => if negative then -Text.bound64 else Text.bound64 - 1
  | finite negative mantissa exponent =>
    let size : Int :=
      if 0 ≤ exponent then mantissa * Nat.pow 2 exponent.toNat else mantissa / Nat.pow 2 (-exponent).toNat
    if negative then max (-size) (-Text.bound64) else min size (Text.bound64 - 1)

end Binary

end MarkupTemplates
