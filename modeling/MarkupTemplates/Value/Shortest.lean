import MarkupTemplates.Text.Numeral
import MarkupTemplates.Value.Binary

namespace MarkupTemplates

/-- Digits and the power of ten that the last one stands for. -/
structure Decimal where
  digits : Nat
  exponent : Int
  deriving DecidableEq, Repr

/-- How the text of a floating-point number looks. -/
structure NumberStyle where
  /-- Numbers below ten to this power are written without exponent, unless they are small. -/
  positionalBelow : Int
  /-- Numbers from ten to this power on are written without exponent, unless they are large. -/
  positionalFrom : Int
  /-- Of two decimals that are equally near the larger one is taken, else the even one. -/
  tieUp : Bool

namespace Decimal

/-- The numbers that are read as a certain one: all between two bounds, in quarters of the unit of its
mantissa. The bounds belong to them if the mantissa is even. -/
structure Interval where
  low : Nat
  high : Nat
  closed : Bool

/-- Where the numbers end that are nearer to this one than to its neighbours. -/
def Interval.around (f : BinaryFormat) (mantissa : Nat) (exponent : Int) : Interval :=
  let halved := mantissa = f.leadingBit ∧ exponent ≠ f.leastExponent
  { low := 4 * mantissa - if halved then 1 else 2
    high := 4 * mantissa + 2
    closed := mantissa % 2 = 0 }

/-- A multiple of ten to the power `k` that is read as the number: of its two neighbours on this grid
the nearer one that lies in the interval. All is compared as whole multiples of a common unit. -/
def onGrid? (tieUp : Bool) (mantissa : Nat) (exponent : Int) (range : Interval) (k : Int) :
    Option Nat :=
  let quarter := Nat.pow 2 (exponent - 2).toNat * Nat.pow 10 (-k).toNat
  let step := Nat.pow 2 (2 - exponent).toNat * Nat.pow 10 k.toNat
  let exact := 4 * mantissa * quarter
  let below := exact / step
  let inside (d : Nat) : Bool :=
    if range.closed then range.low * quarter ≤ d * step && d * step ≤ range.high * quarter
    else range.low * quarter < d * step && d * step < range.high * quarter
  let rest := exact - below * step
  let up := step < 2 * rest ∨ (step = 2 * rest ∧ (tieUp ∨ below % 2 = 1))
  match inside below, inside (below + 1) with
  | true, true => some (if up then below + 1 else below)
  | true, false => some below
  | false, true => some (below + 1)
  | false, false => none

/-- The coarsest grid that has such a multiple, from the power `k` downwards. The finest one that is
tried holds the number itself. -/
def search (tieUp : Bool) (mantissa : Nat) (exponent : Int) (range : Interval) (k : Int) :
    Nat → Decimal
  | 0 => ⟨mantissa * Nat.pow 10 (-k).toNat * Nat.pow 2 exponent.toNat / Nat.pow 2 (-exponent).toNat, k⟩
  | steps + 1 =>
    match onGrid? tieUp mantissa exponent range k with
    | some d => ⟨d, k⟩
    | none => search tieUp mantissa exponent range (k - 1) steps

/-- The decimal with the fewest digits that is read as the number, and the nearest of those. -/
def shortest (f : BinaryFormat) (tieUp : Bool) (mantissa : Nat) (exponent : Int) : Decimal :=
  let top := (Nat.toDigits 10 ((mantissa + 1) * Nat.pow 2 exponent.toNat)).length
  search tieUp mantissa exponent (.around f mantissa exponent) top (top + (-exponent).toNat)

def zeros (n : Nat) : Text := List.replicate n '0'

/-- The digits with a point, or with a point after the first digit and an exponent. -/
def text (style : NumberStyle) (d : Decimal) : Text :=
  let digits := Text.ofNat d.digits
  let point := digits.length + d.exponent
  if style.positionalFrom < point ∧ point ≤ style.positionalBelow then
    if 0 ≤ d.exponent then digits ++ zeros d.exponent.toNat ++ ['.', '0']
    else if 0 < point then digits.take point.toNat ++ '.' :: digits.drop point.toNat
    else '0' :: '.' :: zeros (-point).toNat ++ digits
  else
    let fraction := if digits.length = 1 then [] else '.' :: digits.drop 1
    digits.take 1 ++ fraction ++ 'e' :: Text.ofInt (point - 1)

end Decimal

/-- The text of a floating-point number of the format. -/
def Binary.text (f : BinaryFormat) (style : NumberStyle) (b : Binary) : Text :=
  let signed (negative : Bool) (t : Text) : Text := if negative then '-' :: t else t
  match b with
  | nan => "NaN"
  | infinite negative => signed negative "inf"
  | finite negative mantissa exponent =>
    if mantissa = 0 then signed negative "0.0"
    else signed negative ((Decimal.shortest f style.tieUp mantissa exponent).text style)

end MarkupTemplates
