import MarkupTemplates.Text.Blank

namespace MarkupTemplates

/-- A directive in the form of a comment, `<!-- name = "value" -->`, with the byte positions of name
and value. The value is kept as it is written. -/
structure CommentDirective where
  name : Text
  value : Text
  nameStart : Nat
  valueStart : Nat
  deriving DecidableEq, Repr

namespace CommentDirective

def isNameChar (c : Char) : Bool := c.isLower || c = ':'

def isQuote (c : Char) : Bool := c = '"' || c = '\''

/-- What stands before the last quotation mark, which only blanks and the end of the comment may
follow. -/
def value? (t : Text) : Option Text :=
  match Text.before? "-->" t with
  | none => none
  | some inner =>
    match inner.reverse.dropWhile isBlank with
    | c :: rest => if isQuote c then some rest.reverse else none
    | [] => none

/-- Reads a whole comment that stands at byte `start`. The value reaches to the last quotation mark,
so that it may hold such marks itself. -/
def read? (start : Nat) (comment : Text) : Option CommentDirective :=
  match Text.after? "<!--" comment with
  | none => none
  | some t =>
    let gap := t.takeWhile isGap
    let t := t.dropWhile isGap
    let name := t.takeWhile isNameChar
    let t := t.dropWhile isNameChar
    match name, t.dropWhile isGap with
    | [], _ => none
    | _, '=' :: afterSign =>
      match afterSign.dropWhile isGap with
      | mark :: inner =>
        if isQuote mark then
          (value? inner).map fun value =>
            { name, value
              nameStart := start + Text.byteSize "<!--" + Text.byteSize gap
              valueStart := start + Text.byteSize comment - Text.byteSize inner }
        else none
      | [] => none
    | _, _ => none

end CommentDirective

end MarkupTemplates
