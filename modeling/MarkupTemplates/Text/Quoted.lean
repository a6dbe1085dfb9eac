import MarkupTemplates.Text.Basic
import MarkupTemplates.Text.Letter
import MarkupTemplates.Text.HiddenTable

namespace MarkupTemplates

/-- A character that cannot be told from its neighbours when it is printed. -/
def isHidden (c : Char) : Bool :=
  let n := c.toNat
  n < 0x20 || n = 0x7F || inRanges hiddenRanges n

/-- A character as a quotation shows it: the quotation mark itself, the backslash and what cannot be
seen are written as escapes. -/
def escaped (mark c : Char) : Text :=
  if c = mark || c = '\\' then ['\\', c]
  else if c = '\x00' then ['\\', '0']
  else if c = '\t' then ['\\', 't']
  else if c = '\n' then ['\\', 'n']
  else if c = '\r' then ['\\', 'r']
  else if isHidden c then ['\\', 'u', '{'] ++ Nat.toDigits 16 c.toNat ++ ['}']
  else [c]

/-- The text between quotation marks, as messages show it. -/
def Text.quoted (t : Text) : Text := '"' :: t.flatMap (escaped '"') ++ ['"']

end MarkupTemplates
