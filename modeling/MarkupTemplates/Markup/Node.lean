import MarkupTemplates.Text.Basic

namespace MarkupTemplates

/-- A stretch of a source, as byte positions of its first character and of what follows it. -/
structure Span where
  start : Nat
  stop : Nat
  deriving DecidableEq, Repr

def Span.length (s : Span) : Nat := s.stop - s.start

def Text.at (source : Text) (s : Span) : Text := source.slice s.start s.stop

/-- An attribute as read: character references in the value are resolved, and a name that stands
alone has no value. The span ends after the closing quotation mark. -/
structure Attribute where
  name : Text
  value : Option Text
  span : Span
  valueStart : Option Nat
  deriving DecidableEq, Repr

/-- A start tag, from its angle bracket to the end of the closing one. -/
structure Tag where
  name : Text
  attributes : List Attribute
  span : Span
  deriving DecidableEq, Repr

/-- The parts of a document that can carry directives. Plain text is not kept: every node knows
where it stands in the source. An element ends at `stop`. -/
inductive Node where
  | comment (span : Span)
  | element (tag : Tag) (stop : Nat) (children : List Node)

mutual

def Node.decEq : (a b : Node) → Decidable (a = b)
  | .comment span, .comment span' => decidable_of_iff (span = span') (by simp)
  | .comment _, .element .. => isFalse nofun
  | .element .., .comment _ => isFalse nofun
  | .element tag stop children, .element tag' stop' children' =>
    have := Node.rowDecEq children children'
    decidable_of_iff (tag = tag' ∧ stop = stop' ∧ children = children') (by simp)

def Node.rowDecEq : (a b : List Node) → Decidable (a = b)
  | [], [] => isTrue rfl
  | [], _ :: _ => isFalse nofun
  | _ :: _, [] => isFalse nofun
  | node :: rest, node' :: rest' =>
    have := Node.decEq node node'
    have := Node.rowDecEq rest rest'
    decidable_of_iff (node = node' ∧ rest = rest') (by simp)

end

instance : DecidableEq Node := Node.decEq

/-- Attribute names of a tag are looked up without regard to the case of ASCII letters. -/
def Tag.attribute? (tag : Tag) (name : Text) : Option Attribute :=
  tag.attributes.find? fun a => a.name.lower = name.lower

def Node.span : Node → Span
  | .comment span => span
  | .element tag stop _ => ⟨tag.span.start, stop⟩

end MarkupTemplates
