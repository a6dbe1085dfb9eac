import MarkupTemplates.Text.Numeral

namespace MarkupTemplates

/-- A date of the Gregorian calendar and a time of the day. A leap second counts as the second before
it, with a thousand million nanoseconds more. -/
structure DateTime where
  year : Int
  month : Nat
  day : Nat
  hour : Nat
  minute : Nat
  second : Nat
  nanosecond : Nat
  deriving DecidableEq, Repr

namespace DateTime

def padded (width n : Nat) : Text :=
  let digits := Text.ofNat n
  List.replicate (width - digits.length) '0' ++ digits

/-- Years of more or less than four digits have a sign. -/
def yearText (year : Int) : Text :=
  if 0 ≤ year ∧ year ≤ 9999 then padded 4 year.toNat
  else (if year < 0 then '-' else '+') :: padded 4 year.natAbs

/-- A fraction has three, six or nine digits, as few as it takes. -/
def fractionText (nanosecond : Nat) : Text :=
  if nanosecond = 0 then []
  else if nanosecond % 1000000 = 0 then '.' :: padded 3 (nanosecond / 1000000)
  else if nanosecond % 1000 = 0 then '.' :: padded 6 (nanosecond / 1000)
  else '.' :: padded 9 nanosecond

/-- Date and time with `between` in between. -/
def text (between : Char) (d : DateTime) : Text :=
  let leap := 1000000000 ≤ d.nanosecond
  yearText d.year ++ '-' :: padded 2 d.month ++ '-' :: padded 2 d.day ++
    between :: padded 2 d.hour ++ ':' :: padded 2 d.minute ++
    ':' :: padded 2 (if leap then d.second + 1 else d.second) ++
    fractionText (if leap then d.nanosecond - 1000000000 else d.nanosecond)

end DateTime

end MarkupTemplates
