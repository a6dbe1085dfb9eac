import MarkupTemplates.Directive.MacroHead
import MarkupTemplates.Markup.Node

namespace MarkupTemplates

/-- A stretch of a body that was taken from the enclosing source, where it had the span. -/
structure Excerpt where
  start : Nat
  span : Span
  deriving DecidableEq, Repr

/-- The text of a macro, put together from pieces of the enclosing source and a directive that
declares the parameters. That directive stands for the declaration of the macro. -/
structure MacroBody where
  text : Text
  pieces : List Excerpt
  declaration : Nat
  deriving DecidableEq, Repr

namespace MacroBody

/-- Where the enclosing source has what the body has at `offset`. The end of the body is the end of
its last piece. -/
def sourceOffset (body : MacroBody) (offset : Nat) : Nat :=
  let holds (piece : Excerpt) : Bool :=
    piece.start ≤ offset && offset - piece.start < piece.span.length
  match body.pieces.find? holds with
  | some piece => piece.span.start + (offset - piece.start)
  | none =>
    match body.pieces.getLast? with
    | some piece =>
      if piece.start + piece.span.length ≤ offset then piece.span.start + piece.span.length
      else body.declaration
    | none => body.declaration

/-- A text that reads as itself between the quotation marks of an attribute. -/
def attributeQuoted (t : Text) : Text := (t.replace '&' "&amp;").replace '"' "&quot;"

/-- A text between quotation marks of the kind that it does not hold itself, if there is one. -/
def commentQuoted (t : Text) : Text :=
  let mark := if t.contains '"' && !t.contains '\'' then '\'' else '"'
  mark :: t ++ [mark]

/-- The element that carries the declaration, with the parameters declared in place of the macro. -/
def ofElement (source : Text) (tag : Tag) (stop : Nat) (declaration : Attribute) (var : Text)
    (parameters : Option Text) : MacroBody :=
  let head : Span := ⟨tag.span.start, max (declaration.span.start - 1) tag.span.start⟩
  let tail : Span := ⟨declaration.span.stop, stop⟩
  let declared := match parameters with
    | some parameters => ' ' :: var ++ ('=' :: '"' :: attributeQuoted parameters) ++ ['"']
    | none => []
  let before := source.at head ++ declared
  { text := before ++ source.at tail
    pieces := [⟨0, head⟩, ⟨Text.byteSize before, tail⟩]
    declaration := declaration.span.start }

/-- What stands between the two comments, with the parameters declared in front. -/
def ofRun (source : Text) (run : Span) (declaration : Nat) (var : Text) (parameters : Option Text) :
    MacroBody :=
  let declared := match parameters with
    | some parameters => ("<!--" : Text) ++ var ++ '=' :: commentQuoted parameters ++ ("-->" : Text)
    | none => []
  { text := declared ++ source.at run
    pieces := [⟨Text.byteSize declared, run⟩]
    declaration }

end MacroBody

end MarkupTemplates
