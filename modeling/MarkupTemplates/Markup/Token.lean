import MarkupTemplates.Text.Basic

namespace MarkupTemplates

/-- The value of an attribute as it is written. -/
inductive WrittenValue where
  | quoted (mark : Char) (content : Text)
  | bare (content : Text)
  deriving DecidableEq, Repr

/-- The equals sign of an attribute with the blanks around it, and the value. -/
structure Assignment where
  before : Text
  after : Text
  value : WrittenValue
  deriving DecidableEq, Repr

/-- An attribute with the blanks in front of it. -/
structure WrittenAttribute where
  gap : Text
  name : Text
  assignment : Option Assignment
  deriving DecidableEq, Repr

/-- A start tag in every detail of its spelling. -/
structure WrittenTag where
  name : Text
  attributes : List WrittenAttribute
  gap : Text
  slash : Bool
  deriving DecidableEq, Repr

/-- A piece of a document. The pieces keep all of their text, so a document is exactly what its
pieces spell in a row. -/
inductive Token where
  | comment (text : Text)
  | startTag (tag : WrittenTag)
  /-- A start tag together with content that is not markup, and the end tag after it. -/
  | rawElement (tag : WrittenTag) (content : Text)
  | endTag (name gap : Text)
  | plain (text : Text)
  deriving DecidableEq, Repr

def WrittenValue.content : WrittenValue → Text
  | quoted _ content => content
  | bare content => content

def WrittenValue.text : WrittenValue → Text
  | quoted mark content => mark :: content ++ [mark]
  | bare content => content

def Assignment.text (a : Assignment) : Text := a.before ++ '=' :: a.after ++ a.value.text

def WrittenAttribute.text (a : WrittenAttribute) : Text :=
  a.gap ++ a.name ++ match a.assignment with
    | some assignment => assignment.text
    | none => []

def WrittenTag.text (tag : WrittenTag) : Text :=
  '<' :: tag.name ++ tag.attributes.flatMap WrittenAttribute.text ++ tag.gap ++
    (if tag.slash then ['/'] else []) ++ ['>']

def Token.text : Token → Text
  | comment text => text
  | startTag tag => tag.text
  | rawElement tag content => tag.text ++ content
  | endTag name gap => '<' :: '/' :: name ++ gap ++ ['>']
  | plain text => text

end MarkupTemplates
