import MarkupTemplates.Proofs.Rendering.Bounds
import MarkupTemplates.Proofs.Rendering.Streams

namespace MarkupTemplates

namespace Template.StemsFrom

variable {parser parser' : Parser TemplateClass} {args args' : TemplateArguments}
  {u u' : ParsedTemplate TemplateClass} {t t' : Template} {parameters : Option Parameters}

theorem selfContained_of_nothing (stems : t.StemsFrom parser args u) (nothing : args.imported = []) :
    t.SelfContained := by
  rintro a ⟨path, reached⟩ name _
  obtain ⟨_, _, made, _⟩ := stems.made_at reached
  rw [made.imported, nothing]
  exact .inr rfl

/-- What is told of templates from sources of the same code differs only in what their errors say of themselves. -/
theorem told_eq (one : t.StemsFrom parser args u) (other : t'.StemsFrom parser' args' u') (codes : u.SameCode u')
    (named : u.resource.name = u'.resource.name) (selfContained : t.SelfContained) (selfContained' : t'.SelfContained)
    (free : (parameters.getD []).TemplateFree) (depth : Nat) :
    (t.told depth parameters).map (·.mapError UnknownMacro.error) =
      (t'.told depth parameters).map (·.mapError UnknownMacro.error) := by
  have told := one.told_alike other codes selfContained selfContained' free depth
  generalize t.told depth parameters = x at told
  generalize t'.told depth parameters = y at told
  cases told with
  | none => rfl
  | some matched =>
    cases matched with
    | ok same => rw [same]
    | error lacking =>
      rw [Option.map_some, Option.map_some, mapError_error, mapError_error, one.error_eq other named lacking]

/-- A template that writes text prints what is told of it. -/
theorem renderText_told (stems : t.StemsFrom parser args u) (text : u.stream = false)
    (selfContained : t.SelfContained) (free : (parameters.getD []).TemplateFree) (depth : Nat) (s : Stage) :
    (t.renderText depth parameters fun _ => true).result s =
      ((t.told depth parameters).map (·.mapError UnknownMacro.error)).map (·.map t.printing.told) := by
  rw [renderText_result (stems.company selfContained) ⟨[], rfl⟩ (free.within _), text, Option.map_map]
  congr 1
  funext result
  cases result <;> rfl

end Template.StemsFrom

/-- How values are printed has no part in what is done. Whatever settings, filter and formatter a template is
constructed with, rendering it comes to an end within the same bounds, and then it comes to the same error, which tells
of a macro that is not there, or the text is put together from the same deeds: what the template itself says stands as
it is, and each value is printed and passes the filter once. It comes to no error if no mark that encloses code stands
in the source or in the value of an attribute. What is imported makes no difference as long as no program binds it,
which none does if nothing is there to be bound, or if there are no such marks. -/
theorem values_printed_once {parser : Parser TemplateClass} (names : parser.names = .default)
    (demo : parser.dialect = Program.dialect) (compiler : parser.compiler = Program.compiler)
    {resource : Resource} {events : List Event} {template : ParsedTemplate TemplateClass} {c : TemplateClass}
    (compiled : parser.compile false resource = (events, .ok (template, c))) {parameters : Option Parameters}
    (free : (parameters.getD []).TemplateFree) :
    ∃ (ends : Nat → Bool) (outcome : Except RenderError (List Deed)),
      (∀ e, outcome = .error e → ∃ failed name, e = .failed failed (("unknown macro " : Text) ++ name)) ∧
      (resource.source.Unmarked → ∀ depth, ends depth = true → ∃ deeds, outcome = .ok deeds) ∧
      ∀ args t, c.instantiate args = .ok t →
        Printing.ofSettings args.settings args.filter args.formatter = .ok t.printing ∧
        (resource.source.Unmarked ∨ args.imported = [] → t.SelfContained) ∧
        (t.SelfContained → ∀ depth s, (t.renderText depth parameters fun _ => true).result s =
          if ends depth then some (outcome.map t.printing.told) else none) := by
  have var : (parser.names.name .var).Plain := names ▸ DirectiveNames.plain_var
  have word : IsAttributeWord (parser.names.name .var) := names ▸ DirectiveNames.isAttributeWord_var
  obtain ⟨parsed, made⟩ := Parser.compile_ok compiled
  obtain ⟨source, text⟩ := Parser.parsed_from parsed
  have bindsOwn {args : TemplateArguments} {t : Template} (stems : t.StemsFrom parser args template)
      (unmarked : resource.source.Unmarked) : t.BindsOwn :=
    stems.bindsOwn demo var word (by rw [source]; exact unmarked)
  -- what is done is told of the template that is constructed with nothing at all
  rw [compiler] at made
  obtain ⟨bare, bare_made⟩ : ∃ t, c.instantiate {} = .ok t :=
    (Parser.compiledFrom compiler parsed made).instantiate_iff.mpr ⟨_, rfl⟩
  have bare_stems : bare.StemsFrom parser {} template := .of_compile compiler compiled bare_made
  have bare_contained := bare_stems.selfContained_of_nothing rfl
  have settles : ∀ depth told, bare.told depth parameters = some told →
      bare.told (depth + 1) parameters = some told := fun depth told => Template.realm.account_succ depth _ _ told
  obtain ⟨ends, told, settled⟩ := exists_settled settles
  refine ⟨ends, told.mapError UnknownMacro.error, fun e failed => ?_, fun unmarked depth ended => ?_,
    fun args t instance_ok => ?_⟩
  · cases told with
    | ok deeds => cases failed
    | error lacking =>
      obtain rfl := Except.error.inj failed
      exact ⟨_, lacking.name, rfl⟩
  · have known := settled depth
    rw [if_pos ended] at known
    rcases bare_stems.told_ok (bindsOwn bare_stems unmarked) free depth with none | ⟨deeds, ok⟩
    · cases none.symm.trans known
    · obtain rfl := Option.some.inj (ok.symm.trans known)
      exact ⟨deeds, rfl⟩
  have stems : t.StemsFrom parser args template := .of_compile compiler compiled instance_ok
  refine ⟨(TemplateClass.instantiate_ok instance_ok).2.1, ?_, fun selfContained depth s => ?_⟩
  · rintro (unmarked | nothing)
    · exact (bindsOwn stems unmarked).selfContained
    · exact stems.selfContained_of_nothing nothing
  · have same := bare_stems.told_eq stems (.refl template) rfl bare_contained selfContained free depth
    rw [stems.renderText_told text selfContained free, ← same]
    have known := settled depth
    cases ended : ends depth with
    | true =>
      rw [ended, if_pos rfl] at known
      rw [known]
      rfl
    | false =>
      rw [ended, if_neg Bool.false_ne_true] at known
      rw [known]
      rfl

/-- A value is printed before a macro and in the macro. With one configuration it goes by a word of its own, with
another one it passes a filter. -/
theorem values_printed_once_around_macro :
    let parser : Parser TemplateClass := ⟨.default, Program.dialect, Program.compiler⟩
    let resource : Resource := { name := "t", source := "<b macro='m'>${x}</b>-${x}${m}" }
    let parameters : Option Parameters := some [("x", .bool true)]
    let wording : TemplateArguments := { settings := [("true.value", "yes")] }
    let filtering : TemplateArguments := { filter := some fun t => '[' :: t ++ [']'] }
    resource.source.Unmarked ∧ (parameters.getD []).TemplateFree ∧ ∃ events template c t t' deeds,
      parser.compile false resource = (events, .ok (template, c)) ∧
      c.instantiate wording = .ok t ∧ c.instantiate filtering = .ok t' ∧
      t.printing.told deeds = "-yes<b>yes</b>" ∧ t'.printing.told deeds = "-[true]<b>[true]</b>" ∧
      (t.renderText 2 parameters fun _ => true).result {} = some (.ok (t.printing.told deeds)) ∧
      (t'.renderText 2 parameters fun _ => true).result {} = some (.ok (t'.printing.told deeds)) := by
  intro parser resource parameters wording filtering
  have unmarked : resource.source.Unmarked := by decide +kernel
  have free : (parameters.getD []).TemplateFree := by
    rintro name v member t rfl
    cases List.mem_singleton.mp member
  have rendered : ((parser.compile false resource).2.toOption.bind fun (_, c) =>
      (c.instantiate wording).toOption.bind fun t => (c.instantiate filtering).toOption.map fun t' =>
        ((t.renderText 2 parameters fun _ => true).result {}, (t'.renderText 2 parameters fun _ => true).result {})) =
      some (some (.ok "-yes<b>yes</b>"), some (.ok "-[true]<b>[true]</b>")) := by
    decide +kernel
  obtain ⟨⟨template, c⟩, compiled, rest⟩ := Option.bind_eq_some_iff.mp rendered
  obtain ⟨t, made, rest⟩ := Option.bind_eq_some_iff.mp rest
  obtain ⟨t', made', texts⟩ := Option.map_eq_some_iff.mp rest
  obtain ⟨one, two⟩ := Prod.mk.inj texts
  have whole : parser.compile false resource = (_, .ok (template, c)) := Prod.ext rfl (ok_of_toOption compiled)
  obtain ⟨ends, outcome, _, good, all⟩ := values_printed_once rfl rfl rfl whole free
  obtain ⟨_, contained, prints⟩ := all wording t (ok_of_toOption made)
  obtain ⟨_, contained', prints'⟩ := all filtering t' (ok_of_toOption made')
  have said := prints (contained (.inl unmarked)) 2 {}
  have said' := prints' (contained' (.inl unmarked)) 2 {}
  have ended : ends 2 = true := by
    cases known : ends 2 with
    | true => rfl
    | false =>
      rw [known, one] at said
      cases said
  obtain ⟨deeds, rfl⟩ := good unmarked 2 ended
  rw [ended, if_pos rfl] at said said'
  exact ⟨unmarked, free, _, template, c, t, t', deeds, whole, ok_of_toOption made, ok_of_toOption made',
    Except.ok.inj (Option.some.inj (said.symm.trans one)), Except.ok.inj (Option.some.inj (said'.symm.trans two)),
    said, said'⟩

/-- Where a piece of code in the text of a source binds a macro that is nowhere, rendering comes to an end without
any text. -/
theorem no_deeds_without_macro :
    let parser : Parser TemplateClass := ⟨.default, Program.dialect, Program.compiler⟩
    let resource : Resource := { name := "t", source := "\x020:bind:x\x03a" }
    ∃ events template c t, parser.compile false resource = (events, .ok (template, c)) ∧
      c.instantiate {} = .ok t ∧
      (t.renderText 1 none fun _ => true).result {} = some (.error (.failed (some "t") "unknown macro x")) ∧
      ¬ ∃ deeds, (t.renderText 1 none fun _ => true).result {} = some (.ok (t.printing.told deeds)) := by
  intro parser resource
  have rendered : ((parser.compile false resource).2.toOption.bind fun (_, c) =>
      (c.instantiate {}).toOption.map fun t => (t.renderText 1 none fun _ => true).result {}) =
        some (some (.error (.failed (some "t") "unknown macro x"))) := by
    decide +kernel
  obtain ⟨⟨template, c⟩, compiled, rest⟩ := Option.bind_eq_some_iff.mp rendered
  obtain ⟨t, made, failed⟩ := Option.map_eq_some_iff.mp rest
  refine ⟨_, template, c, t, Prod.ext rfl (ok_of_toOption compiled), ok_of_toOption made, failed, ?_⟩
  rintro ⟨deeds, printed⟩
  cases failed.symm.trans printed

end MarkupTemplates
