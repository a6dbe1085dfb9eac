import MarkupTemplates.Proofs.Rendering.Companies

namespace MarkupTemplates

/-- Whatever is on the stage and wherever the template is evaluated, the output is this one, and targets that take
everything get it as text and as bytes. -/
def Template.Gives (t : Template) (depth : Nat) (parameters : Option Parameters) (output : Option Output) : Prop :=
  ∀ s : Stage,
    (t.evaluate (Template.runWithin depth) parameters).result s = output.map .ok ∧
    (∀ parent, (t.evaluateIn (Template.runWithin depth) parent parameters).result s = output.map .ok) ∧
    (t.renderText depth parameters fun _ => true).result s = output.map (.ok ∘ t.textOf) ∧
    (t.renderBytes depth parameters fun _ => none).result s = output.map (.ok ∘ t.bytesOf)

theorem Template.StemsFrom.gives {parser : Parser TemplateClass} {args : TemplateArguments}
    {u : ParsedTemplate TemplateClass} {t : Template} (stems : t.StemsFrom parser args u) (own : t.BindsOwn)
    {parameters : Option Parameters} (free : (parameters.getD []).TemplateFree) (depth : Nat) :
    ∃ output, t.Gives depth parameters output := by
  have company := stems.company own.selfContained
  have here : t.Holds t := ⟨[], rfl⟩
  have within := free.within t.Holds
  rcases stems.told_ok own free depth with told | ⟨deeds, told⟩
  · refine ⟨none, fun s => ⟨?_, fun parent => ?_, ?_, ?_⟩⟩
    · rw [evaluate_result company here within, told]
      rfl
    · rw [evaluateIn_result company here within, told]
      rfl
    · rw [renderText_result company here within, told]
      rfl
    · rw [renderBytes_result company here within, told]
      rfl
  · refine ⟨some (.told t.printing u.stream deeds), fun s => ⟨?_, fun parent => ?_, ?_, ?_⟩⟩
    · rw [evaluate_result company here within, told]
      rfl
    · rw [evaluateIn_result company here within, told]
      rfl
    · rw [renderText_result company here within, told]
      rfl
    · rw [renderBytes_result company here within, told]
      rfl

/-- Where no mark that encloses code stands in the source or in the value of an attribute, a template that can be
compiled does not fail: whatever it is constructed with, if rendering it comes to an end, it comes to an output, with
all the macros included on the way. -/
theorem compiled_templates_give_output {parser : Parser TemplateClass} (names : parser.names = .default)
    (demo : parser.dialect = Program.dialect) (compiler : parser.compiler = Program.compiler) {stream : Bool}
    {resource : Resource} {events : List Event} {template : ParsedTemplate TemplateClass} {c : TemplateClass}
    (compiled : parser.compile stream resource = (events, .ok (template, c))) (unmarked : resource.source.Unmarked)
    {args : TemplateArguments} {t : Template} (made : c.instantiate args = .ok t) {parameters : Option Parameters}
    (free : (parameters.getD []).TemplateFree) (depth : Nat) : ∃ output, t.Gives depth parameters output := by
  have stems := Template.StemsFrom.of_compile compiler compiled made
  have source := (Parser.parsed_from (Parser.compile_ok compiled).1).1
  have own : t.BindsOwn := stems.bindsOwn demo (names ▸ DirectiveNames.plain_var)
    (names ▸ DirectiveNames.isAttributeWord_var) (source ▸ unmarked)
  exact stems.gives own free depth

/-- A macro that holds another one, and a template from outside that goes by the name of that one but fails: there
is an output as soon as there is room for what is included. -/
theorem compiled_templates_give_output_of_nested_macros :
    let parser : Parser TemplateClass := ⟨.default, Program.dialect, Program.compiler⟩
    let resource : Resource :=
      { name := "t", source := "<ul macro='list'><li macro='item'>${x}</li>${item}</ul>${list}" }
    let failing : Template := ⟨⟨⟨"F", some "f", "UTF-8", [], 0, false⟩, .script [.fail "no"], []⟩,
      ⟨[], none, none, .resolve none, [], [], [], none, none⟩, [], [], []⟩
    let args : TemplateArguments := { imported := [("item", failing)] }
    let parameters : Option Parameters := some [("x", .str "a")]
    resource.source.Unmarked ∧ (parameters.getD []).TemplateFree ∧ ∃ events template c t,
      parser.compile false resource = (events, .ok (template, c)) ∧ c.instantiate args = .ok t ∧
      (∃ output, t.Gives 3 parameters output) ∧
      (t.renderText 3 parameters fun _ => true).result {} = some (.ok "<ul><li>a</li></ul>") := by
  intro parser resource failing args parameters
  have unmarked : resource.source.Unmarked := by decide +kernel
  have free : (parameters.getD []).TemplateFree := by
    rintro name v member t rfl
    cases List.mem_singleton.mp member
  have rendered : ((parser.compile false resource).2.toOption.bind fun (_, c) =>
      (c.instantiate args).toOption.map fun t => (t.renderText 3 parameters fun _ => true).result {}) =
        some (some (.ok "<ul><li>a</li></ul>")) := by
    decide +kernel
  refine ⟨unmarked, free, ?_⟩
  obtain ⟨⟨template, c⟩, compiled, rest⟩ := Option.bind_eq_some_iff.mp rendered
  obtain ⟨t, instantiated, text⟩ := Option.map_eq_some_iff.mp rest
  have whole : parser.compile false resource = (_, .ok (template, c)) := Prod.ext rfl (ok_of_toOption compiled)
  have made := ok_of_toOption instantiated
  exact ⟨_, template, c, t, whole, made, compiled_templates_give_output rfl rfl rfl whole unmarked made free 3, text⟩

end MarkupTemplates
