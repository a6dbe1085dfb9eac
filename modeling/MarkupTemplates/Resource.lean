import MarkupTemplates.Text.Basic

namespace MarkupTemplates

/-- A template source under its name. The encoding is the one it was stored in, the time counts
milliseconds. -/
structure Resource where
  name : Text
  encoding : Text := "UTF-8"
  lastModified : Nat := 0
  source : Text
  deriving DecidableEq, Repr

/-- The name of a macro's source, below the template that declares the macro. -/
def macroPath (template name : Text) : Text := template ++ '#' :: name

/-- The source of a macro inherits all but name and text. -/
def Resource.extract (resource : Resource) (name source : Text) : Resource :=
  { resource with name := macroPath resource.name name, source }

end MarkupTemplates
