import MarkupTemplates.Proofs.ParsedTemplate.Alongside
import MarkupTemplates.Proofs.Template.Below

namespace MarkupTemplates

variable {parser : Parser TemplateClass}

/-- Classes are made of the code of a template and of its macros, whatever they are called. -/
theorem Parser.steady (compiler : parser.compiler = Program.compiler) : parser.Steady := by
  intro one other c alike made
  rw [compiler] at made ⊢
  obtain ⟨p, program, _⟩ := ok_of_bind made
  have same := alike []
  cases same with
  | some same =>
    rw [ParsedTemplate.chunks, same.2.1] at program
    show ∃ c, TemplateClass.ofParsed other = .ok c
    rw [TemplateClass.ofParsed, ParsedTemplate.chunks, program]
    exact ⟨_, rfl⟩

theorem Parser.compile_of_parsed {stream : Bool} {resource : Resource} {events : List Event}
    {template : ParsedTemplate TemplateClass} {c : TemplateClass}
    (parsed : parser.parse stream resource = (events, .ok template))
    (made : parser.compiler.compile template = .ok c) :
    parser.compile stream resource = (events, .ok (template, c)) := by
  rw [compile, parsed]
  simp only [made]

/-- A source that can be compiled can be compiled under any name, as a stream or not. -/
theorem Parser.compiled_alike (compiler : parser.compiler = Program.compiler)
    (word : IsAttributeWord (parser.names.name .var)) {stream : Bool} (stream' : Bool) {resource resource' : Resource}
    (same : resource'.source = resource.source) {events : List Event} {template : ParsedTemplate TemplateClass}
    {c : TemplateClass} (compiled : parser.compile stream resource = (events, .ok (template, c))) :
    ∃ events' template' c', parser.compile stream' resource' = (events', .ok (template', c')) ∧
      template.Alike template' := by
  obtain ⟨parsed, made⟩ := compile_ok compiled
  have room := parser.declarations_lt_depthBound resource'
  rw [same] at room
  obtain ⟨events', template', parsed', alike⟩ := parsed_alike (parser.steady compiler) word same room parsed
  obtain ⟨c', made'⟩ := parser.steady compiler template template' c alike made
  exact ⟨events', template', c', compile_of_parsed parsed' made', alike⟩

end MarkupTemplates
