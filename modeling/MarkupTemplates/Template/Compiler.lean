import MarkupTemplates.ParsedTemplate.Identity
import MarkupTemplates.Program.OfChunks
import MarkupTemplates.Template.Basic

namespace MarkupTemplates

/-- The class of a parsed template with its macros, in the order of their names. -/
def TemplateClass.ofParsed (template : ParsedTemplate TemplateClass) : Except CodeError TemplateClass := do
  let program ← Program.ofChunks template.chunks
  return {
    header := {
      className := template.className
      name := some template.resource.name
      encoding := template.resource.encoding
      source := template.resource.source
      lastModified := template.resource.lastModified
      stream := template.stream }
    body := .program program
    macros := template.macros.map fun (name, m) => (name, .ofClass m.compiled) }

/-- Turns templates into classes of templates. -/
def Program.compiler : Compiler TemplateClass := ⟨TemplateClass.ofParsed⟩

end MarkupTemplates
