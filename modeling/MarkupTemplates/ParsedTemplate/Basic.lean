import MarkupTemplates.Dialect
import MarkupTemplates.Marker
import MarkupTemplates.Markup.Node
import MarkupTemplates.Resource

namespace MarkupTemplates

mutual

/-- A template with code in place of its directives, and the macros set apart from it. Macros come
with what they were compiled into. -/
structure ParsedTemplate (Compiled : Type) where
  resource : Resource
  stream : Bool
  code : Text
  symbols : SymbolTable
  macros : List (Text × Macro Compiled)
  /-- How many directives were replaced, macros among them. -/
  directives : Nat

/-- A macro: where it is declared, what part of the template it was, and that part as a template. -/
structure Macro (Compiled : Type) where
  name : Text
  parameters : Option Text
  start : Nat
  body : Span
  template : ParsedTemplate Compiled
  compiled : Compiled

end

/-- Makes something that runs out of a parsed template. -/
structure Compiler (Compiled : Type) where
  compile : ParsedTemplate Compiled → Except CodeError Compiled

def ParsedTemplate.chunks {Compiled : Type} (template : ParsedTemplate Compiled) : List Chunk :=
  template.code.chunks

end MarkupTemplates
