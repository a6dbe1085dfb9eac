import MarkupTemplates.Directive.Kind
import MarkupTemplates.Settings
import MarkupTemplates.Text.Blank

namespace MarkupTemplates

/-- The words under which directives are written. -/
structure DirectiveNames where
  name : DirectiveKind → Text

namespace DirectiveNames

def default : DirectiveNames := ⟨DirectiveKind.defaultName⟩

/-- The configured words. A setting that is blank does not count. -/
def ofSettings (settings : Settings) : DirectiveNames where
  name kind :=
    let configured := (settings.getOr kind.setting kind.defaultName).trim
    if configured = [] then kind.defaultName else configured

/-- The same words but for one kind. -/
def rename (names : DirectiveNames) (kind : DirectiveKind) (name : Text) : DirectiveNames where
  name other := if other = kind then name else names.name other

/-- The kind that goes by a name. Of kinds that share it the first one is meant. -/
def kindOf? (names : DirectiveNames) (name : Text) : Option DirectiveKind :=
  DirectiveKind.all.find? fun kind => names.name kind = name

end DirectiveNames

end MarkupTemplates
