import MarkupTemplates.ParseError
import MarkupTemplates.Text.Blank
import MarkupTemplates.Text.Letter

namespace MarkupTemplates

/-- What a macro declaration says: the name and the list of parameters, which is not empty if there
is one, as in `greet(name, title)`. -/
structure MacroHead where
  name : Text
  parameters : Option Text
  deriving DecidableEq, Repr

/-- The name and, if there is a parenthesis after it, the text up to the closing one. -/
def MacroHead.split (declaration : Text) : Option (Text × Text) :=
  match declaration.cutAt? '(' with
  | some (name, inner) =>
    if name = [] then some (declaration, [])
    else (Text.before? [')'] inner).map fun parameters => (name.trim, parameters.trim)
  | none => some (declaration, [])

/-- The declaration in the value of a directive. -/
def MacroHead.read (directive value : Text) : Except ParseFault MacroHead :=
  match MacroHead.split value.trim with
  | none => .error (.invalidMacroParameters directive value)
  | some (name, parameters) =>
    if name = [] then .error (.missingMacroName directive value)
    else if name.isIdentifier then
      .ok ⟨name, if parameters = [] then none else some parameters⟩
    else .error (.invalidMacroName directive name value)

end MarkupTemplates
