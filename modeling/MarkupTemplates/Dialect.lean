import MarkupTemplates.Directive.Basic
import MarkupTemplates.Symbols

namespace MarkupTemplates

/-- Why a directive or a template has no code, and where, if that is known better than by the
directive as a whole. -/
structure CodeError where
  message : Text
  offset : Option Nat := none
  deriving DecidableEq, Repr

/-- The code that directives are turned into. -/
structure Dialect where
  /-- The code of a statement. What it declares is added to the symbols. -/
  statement : Directive → SymbolTable → Except CodeError (Text × SymbolTable)
  /-- The code that closes the statement of that name, empty if there is nothing to close. -/
  ending : Text → Text
  /-- The code that gives the variable of that name the macro. -/
  binding : Text → Text

end MarkupTemplates
