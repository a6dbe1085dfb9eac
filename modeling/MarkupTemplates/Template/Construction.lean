import MarkupTemplates.Template.Basic

namespace MarkupTemplates

/-- Why a template cannot be constructed. -/
inductive ConstructionError where
  | inMacro (name : Text) (cause : ConstructionError)
  | unsupportedEncoding (name : Text)
  | refused (message : Text)
  deriving DecidableEq, Repr

def ConstructionError.message : ConstructionError → Text
  | inMacro name cause =>
    ("could not construct macro " : Text) ++ name.quoted ++ (": " : Text) ++ cause.message
  | unsupportedEncoding name => ("unsupported output encoding " : Text) ++ name.quoted
  | refused message => message

/-- Everything a template is constructed with. Its macros are constructed with the same. -/
structure TemplateArguments where
  settings : Settings := []
  filter : Option (Text → Text) := none
  formatter : Option Formatter := none
  functions : List Text := []
  imported : Dictionary Template := []

mutual

/-- An unknown encoding is found before any macro is made. -/
def TemplateClass.instantiate (args : TemplateArguments) :
    TemplateClass → Except ConstructionError Template
  | ⟨header, body, makers⟩ =>
    match Printing.ofSettings args.settings args.filter args.formatter with
    | .error name => .error (.unsupportedEncoding name)
    | .ok printing =>
      match instantiateAll args [] makers with
      | .error e => .error e
      | .ok macros =>
        .ok { ofClass := ⟨header, body, makers⟩, printing
              functions := args.functions, imported := args.imported, macros }

/-- Macros are made in order of declaration. Of two of one name the later one counts. -/
def instantiateAll (args : TemplateArguments) (made : Dictionary Template) :
    List (Text × TemplateMaker) → Except ConstructionError (Dictionary Template)
  | [] => .ok made
  | (name, maker) :: rest =>
    match maker.make args with
    | .error e => .error (.inMacro name e)
    | .ok template => instantiateAll args (made.insert name template) rest

def TemplateMaker.make (args : TemplateArguments) : TemplateMaker → Except ConstructionError Template
  | .ofClass c => c.instantiate args
  | .given t => .ok t
  | .failing message => .error (.refused message)

end

end MarkupTemplates
