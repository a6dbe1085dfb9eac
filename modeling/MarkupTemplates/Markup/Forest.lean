import MarkupTemplates.Markup.Node
import MarkupTemplates.Markup.Reference
import MarkupTemplates.Markup.Scan

namespace MarkupTemplates

/-- How far inside the written value its content begins. -/
def WrittenValue.indent : WrittenValue → Nat
  | quoted .. => 1
  | bare _ => 0

/-- The attribute as it stands at byte `start`, where the blanks in front of it begin. -/
def WrittenAttribute.located (start : Nat) (a : WrittenAttribute) : Attribute :=
  let nameStart := start + Text.byteSize a.gap
  let nameStop := nameStart + Text.byteSize a.name
  { name := a.name
    value := a.assignment.map fun written => Text.resolved written.value.content
    span := ⟨nameStart, start + Text.byteSize a.text⟩
    valueStart := a.assignment.map fun written =>
      nameStop + Text.byteSize written.before + 1 + Text.byteSize written.after + written.value.indent }

/-- Attributes in a row, the first one at byte `start`. -/
def locatedInRow (start : Nat) : List WrittenAttribute → List Attribute
  | [] => []
  | a :: rest => a.located start :: locatedInRow (start + Text.byteSize a.text) rest

def WrittenTag.located (start : Nat) (tag : WrittenTag) : Tag :=
  { name := tag.name
    attributes := locatedInRow (start + 1 + Text.byteSize tag.name) tag.attributes
    span := ⟨start, start + Text.byteSize tag.text⟩ }

/-- A forest under construction. The open elements are listed from the inside out, each with the
nodes it has so far. -/
structure Growth where
  unclosed : List (Tag × List Node)
  roots : List Node

namespace Growth

/-- Adds nodes to the innermost open element. -/
def add (nodes : List Node) : Growth → Growth
  | ⟨[], roots⟩ => ⟨[], roots ++ nodes⟩
  | ⟨(tag, children) :: outer, roots⟩ => ⟨(tag, children ++ nodes) :: outer, roots⟩

/-- Closes the innermost element of the name at `stop`, after the elements inside it, which end at
`start`. The nodes carried along belong to the innermost element that is still open. -/
def closeUntil (named : Text → Bool) (start stop : Nat) (carried : List Node) :
    List (Tag × List Node) → List Node → Growth
  | [], roots => ⟨[], roots ++ carried⟩
  | (tag, children) :: outer, roots =>
    if named tag.name then add [.element tag stop (children ++ carried)] ⟨outer, roots⟩
    else closeUntil named start stop [.element tag start (children ++ carried)] outer roots

/-- An end tag that no open element has is passed over. -/
def close (g : Growth) (name : Text) (start stop : Nat) : Growth :=
  let named (tagName : Text) : Bool := tagName.lower = name.lower
  if g.unclosed.any fun (tag, _) => named tag.name then
    closeUntil named start stop [] g.unclosed g.roots
  else g

/-- The forest grown by a piece that stands at byte `start`. -/
def take (g : Growth) (start : Nat) (token : Token) : Growth :=
  let stop := start + Text.byteSize token.text
  match token with
  | .comment _ => g.add [.comment ⟨start, stop⟩]
  | .startTag tag =>
    if tag.isWhole then g.add [.element (tag.located start) stop []]
    else ⟨(tag.located start, []) :: g.unclosed, g.roots⟩
  | .rawElement tag _ => g.add [.element (tag.located start) stop []]
  | .endTag name _ => g.close name start stop
  | .plain _ => g

/-- The forest of the pieces that follow byte `start`. Elements that are never closed end with the
document. -/
def finish (g : Growth) (start : Nat) : List Token → List Node
  | [] => (closeUntil (fun _ => false) start start [] g.unclosed g.roots).roots
  | token :: rest => finish (g.take start token) (start + Text.byteSize token.text) rest

end Growth

/-- The elements and comments of a document. There is no malformed document: what is no tag is text.
An end tag closes the innermost open element of its name, and with it the elements inside. -/
def Text.nodes (source : Text) : List Node :=
  Growth.finish ⟨[], []⟩ 0 (Scan.tokens source)

end MarkupTemplates
