import MarkupTemplates.Text.Basic
import MarkupTemplates.Text.LetterTable
import MarkupTemplates.Text.NumeralTable

namespace MarkupTemplates

/-- Some run of the table holds the code point. -/
def inRanges (ranges : List (Nat × Nat)) (n : Nat) : Bool :=
  ranges.any fun (first, last) => first ≤ n && n ≤ last

/-- The letters of every script. -/
def isLetter (c : Char) : Bool :=
  if c.toNat < 0x80 then c.isAlpha else inRanges letterRanges c.toNat

/-- The letters, digits and number signs of every script. -/
def isLetterOrNumeral (c : Char) : Bool :=
  if c.toNat < 0x80 then c.isAlphanum
  else inRanges letterRanges c.toNat || inRanges numeralRanges c.toNat

/-- An identifier begins with a letter, an underscore or a dollar sign; digits may follow. -/
def Text.isIdentifier : Text → Bool
  | [] => false
  | c :: t =>
    (isLetter c || c = '_' || c = '$') && t.all fun d => isLetterOrNumeral d || d = '_' || d = '$'

end MarkupTemplates
