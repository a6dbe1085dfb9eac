import MarkupTemplates.Directive.Kind

namespace MarkupTemplates

/-- A statement as it is handed on: the value is trimmed, and in an attribute its character references
are resolved. The byte positions are those of the name and of the first character of the value. -/
structure Directive where
  kind : DirectiveKind
  name : Text
  value : Text
  start : Nat
  valueStart : Nat
  deriving DecidableEq, Repr

end MarkupTemplates
