import MarkupTemplates.Dictionary

namespace MarkupTemplates

/-- How an engine is set up: texts under the names of what they configure. -/
abbrev Settings := Dictionary Text

/-- The configured text, or what holds without configuration. -/
def Settings.getOr (settings : Settings) (key default : Text) : Text :=
  (Dictionary.get? settings key).getD default

end MarkupTemplates
