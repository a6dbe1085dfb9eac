import MarkupTemplates.Markup.Forest
import MarkupTemplates.ParsedTemplate.Walk

namespace MarkupTemplates

/-- Reads templates whose directives go by certain words. -/
structure Parser (Compiled : Type) where
  names : DirectiveNames
  dialect : Dialect
  compiler : Compiler Compiled

namespace Parser

variable {Compiled : Type}

/-- Parses with macros nested at most `depth` deep. -/
def parseWithin (parser : Parser Compiled) (stream : Bool) : Nat → Resource → Parsed Compiled
  | 0, resource => ([], .error (.locate .endlessMacros resource 0))
  | depth + 1, resource =>
    let job : Job Compiled :=
      { names := parser.names, dialect := parser.dialect, compiler := parser.compiler
        resource, stream, parseBody := parser.parseWithin stream depth }
    match Walk.siblings job none {} resource.source.nodes with
    | .error failure => (failure.events, .error failure.error)
    | .ok w =>
      (w.events ++ [.parsed resource.name w.directives w.macros.length],
        .ok { resource, stream, code := w.edits.apply resource.source
              symbols := w.symbols, macros := w.macros, directives := w.directives })

/-- How deep macros can be nested. Each of them takes up room in the source, or in the word that
declares the parameters of one around it. -/
def depthBound (parser : Parser Compiled) (resource : Resource) : Nat :=
  (resource.source.length + 1) * ((parser.names.name .var).length + 1)

/-- Parses a source with all the macros in it. -/
def parse (parser : Parser Compiled) (stream : Bool) (resource : Resource) : Parsed Compiled :=
  parser.parseWithin stream (parser.depthBound resource) resource

/-- Parses a source and compiles the template itself, too. -/
def compile (parser : Parser Compiled) (stream : Bool) (resource : Resource) :
    List Event × Except ParseError (ParsedTemplate Compiled × Compiled) :=
  match parser.parse stream resource with
  | (events, .error e) => (events, .error e)
  | (events, .ok template) =>
    match parser.compiler.compile template with
    | .ok compiled => (events, .ok (template, compiled))
    | .error e =>
      (events, .error (.locate (.invalidTemplate resource.name e.message) resource (e.offset.getD 0)))

end Parser

end MarkupTemplates
