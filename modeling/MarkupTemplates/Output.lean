import MarkupTemplates.Charset

namespace MarkupTemplates

/-- What a template has written so far. Text for an output of bytes is encoded as it is written. -/
inductive Output where
  | text (content : Text)
  | bytes (content : List UInt8)
  deriving DecidableEq, Repr

namespace Output

/-- A stream is an output of bytes. -/
def empty (stream : Bool) : Output := if stream then bytes [] else text []

/-- Without a charset text is written in UTF-8. -/
def writeText (output : Output) (t : Text) (charset : Option Charset) : Output :=
  match output with
  | text content => text (content ++ t)
  | bytes content => bytes (content ++ (charset.getD .utf8).encode t)

def writeBytes (output : Output) (b : List UInt8) (charset : Option Charset) : Output :=
  match output with
  | text content => text (content ++ (charset.getD .utf8).decode b)
  | bytes content => bytes (content ++ b)

/-- The same kind of output with nothing in it. -/
def cleared : Output → Output
  | text _ => text []
  | bytes _ => bytes []

def isEmpty : Output → Bool
  | text content => content.isEmpty
  | bytes content => content.isEmpty

end Output

end MarkupTemplates
