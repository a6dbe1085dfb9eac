import MarkupTemplates.Proofs.Program.Calls
import MarkupTemplates.Proofs.Rendering.Streams

namespace MarkupTemplates

/-- A template that calls a macro of its own and does nothing else does what the macro does, for which the name is
set to the macro itself. -/
theorem Realm.account_call {T : Type} {realm : Realm T} {a found : T} {name : Text}
    (program : realm.program a = Program.call name) (known : realm.macro? a name = some found) (depth : Nat)
    (scope : Scope T) :
    realm.account (depth + 1) a scope = realm.account depth found (scope.set name (.template found)) := by
  rw [account, program, Program.call]
  have own : scope.set name (.template found) name = .template found := if_pos rfl
  have pure_apply {α : Type} (v : α) (τ : Progress T) : (pure v : Account T α) τ = some (.ok v, τ) := rfl
  simp only [Statement.accountAll, Statement.account, known, Account.bind_apply, Account.assign, Account.evaluate,
    Expression.eval, Operand.eval, own, pure_apply, Option.bind_some,
    Account.embed]
  cases realm.account depth found (scope.set name (.template found)) with
  | none => rfl
  | some result => cases result <;> rfl

namespace SetApart

variable {parser : Parser TemplateClass} {stream : Bool} {whole part : Resource} {name body : Text}

section

variable (apart : SetApart name body) (names : parser.names = .default) (source : whole.source = abstracted name body)

include apart names source

theorem program_eq (demo : parser.dialect = Program.dialect)
    (size : whole.source.byteSize < Marker.lengthBound) {events : List Event}
    {template : ParsedTemplate TemplateClass} (parsed : parser.parse stream whole = (events, .ok template)) :
    Program.ofChunks template.chunks = .ok (Program.call name) := by
  have short : (abstractedClosing name body).stop < Marker.lengthBound := by
    refine Nat.lt_of_le_of_lt ?_ size
    rw [source]
    simp only [abstracted, abstractedClosing, Text.byteSize_append]
    omega
  have head : (abstracted name body).at ⟨0, 0⟩ = [] := Text.slice_self _ 0
  have tail : (abstracted name body).at ⟨(abstractedClosing name body).stop, (abstracted name body).byteSize⟩ =
      interpolated name := by
    have cut := Text.slice_append (macroOpening name ++ (body ++ macroClosing)) (interpolated name) []
    rw [List.append_nil, ← Text.byteSize_append, List.append_assoc, List.append_assoc, ← abstracted] at cut
    simp only [Text.byteSize_append, ← Nat.add_assoc] at cut
    exact cut
  have code := parser.parseWithin_written parsed
  rw [names, source, apart.layout_eq, demo, written?, Part.written?, head] at code
  simp only [written?, Part.written?, MacroHead.read_of_isIdentifier apart.identifier, tail,
    show SymbolTable.declare {} name templateType = .ok _ from rfl, Option.map_some, List.nil_append,
    List.append_nil, Option.some.injEq, Prod.mk.injEq] at code
  rw [ParsedTemplate.chunks, ← code.1]
  exact Program.ofChunks_call apart.identifier apart.other short

end

section

variable (names : parser.names = .default) (compiler : parser.compiler = Program.compiler)

include names compiler

/-- Where the text by itself can be compiled, the macro can. -/
theorem macro_of_part (source : whole.source = abstracted name body) (source' : part.source = body)
    {events : List Event} {template : ParsedTemplate TemplateClass} {c : TemplateClass}
    (compiled : parser.compile stream part = (events, .ok (template, c))) :
    ∃ below events' inner compiled', parser.depthBound whole = below + 1 ∧
      parser.parseWithin stream below (whole.extract name body) = (events', .ok inner) ∧
      parser.compiler.compile inner = .ok compiled' ∧ template.Alike inner := by
  obtain ⟨parsed, made⟩ := Parser.compile_ok compiled
  have word : IsAttributeWord (parser.names.name .var) := names ▸ DirectiveNames.isAttributeWord_var
  have few := @Text.declarations_le_length parser.names body
  have longer : body.length < whole.source.length := by
    rw [source, abstracted, List.length_append, List.length_append, List.length_append]
    have some_text : 0 < macroClosing.length := by decide
    omega
  have bound : whole.source.length + 1 ≤ parser.depthBound whole := Nat.le_mul_of_pos_right _ (Nat.succ_pos _)
  have room : part.source.declarations parser.names < parser.depthBound whole - 1 := by
    rw [source']
    omega
  obtain ⟨events', inner, parsed', alike⟩ := @Parser.parsed_alike _ parser (parser.steady compiler) word stream
    stream _ _ part (whole.extract name body) source'.symm room _ _ parsed
  obtain ⟨compiled', made'⟩ := parser.steady compiler template inner c alike made
  exact ⟨_, events', inner, compiled', by omega, parsed', made', alike⟩

variable (apart : SetApart name body) (source : whole.source = abstracted name body) (source' : part.source = body)

include apart source source'

/-- The text by itself can be compiled just if the text with the macro can. -/
theorem compiles_iff (demo : parser.dialect = Program.dialect) (size : whole.source.byteSize < Marker.lengthBound) :
    (∃ events template c, parser.compile stream whole = (events, .ok (template, c))) ↔
      ∃ events template c, parser.compile stream part = (events, .ok (template, c)) := by
  have word : IsAttributeWord (parser.names.name .var) := names ▸ DirectiveNames.isAttributeWord_var
  constructor
  · rintro ⟨events, template, c, compiled⟩
    obtain ⟨below, events', found, _, inner, made, _⟩ :=
      apart.parsed_inversion names source (Parser.compile_ok compiled).1
    have room := parser.declarations_lt_depthBound part
    rw [source'] at room
    obtain ⟨events'', template', parsed, alike⟩ := @Parser.parsed_alike _ parser (parser.steady compiler) word stream
      stream _ (parser.depthBound part) (whole.extract name body) part source' room _ _ inner
    obtain ⟨c', made'⟩ := parser.steady compiler _ _ _ alike made
    exact ⟨events'', template', c', Parser.compile_of_parsed parsed made'⟩
  · rintro ⟨events, template, c, compiled⟩
    obtain ⟨below, events', inner, compiled', depth, parsed, made, _⟩ :=
      macro_of_part names compiler source source' compiled
    obtain ⟨events'', template', whole_parsed⟩ := apart.parsed_of names source parsed made
    rw [← depth] at whole_parsed
    have program := apart.program_eq names source demo size whole_parsed
    have made' : ∃ c', parser.compiler.compile template' = .ok c' := by
      rw [compiler]
      show ∃ c', TemplateClass.ofParsed template' = .ok c'
      rw [TemplateClass.ofParsed, program]
      exact ⟨_, rfl⟩
    obtain ⟨c', made'⟩ := made'
    exact ⟨events'', template', c', Parser.compile_of_parsed whole_parsed made'⟩

/-- The macro and the text by itself come to templates that are alike. -/
theorem macro_alike {events events' : List Event} {template template' : ParsedTemplate TemplateClass}
    {c c' : TemplateClass} (compiled : parser.compile stream whole = (events, .ok (template, c)))
    (compiled' : parser.compile stream part = (events', .ok (template', c'))) :
    ∃ found, template.macros = [(name, found)] ∧ template'.Alike found.template := by
  obtain ⟨below, _, found, depth, inner, _, macros⟩ :=
    apart.parsed_inversion names source (Parser.compile_ok compiled).1
  obtain ⟨below', _, inner', _, depth', again, _, alike⟩ := macro_of_part names compiler source source' compiled'
  obtain rfl : below = below' := Nat.succ.inj (depth.symm.trans depth')
  obtain rfl := Except.ok.inj (Prod.mk.inj (inner.symm.trans again)).2
  exact ⟨found, macros, alike⟩

end

end SetApart

namespace Template.StemsFrom

variable {parser : Parser TemplateClass} {args : TemplateArguments} {u u' : ParsedTemplate TemplateClass}
  {t b : Template} {name : Text} {found : Macro TemplateClass}

/-- What a template is that does nothing but call its one macro. -/
theorem called (stems : t.StemsFrom parser args u) (compiler : parser.compiler = Program.compiler)
    (program : Program.ofChunks u.chunks = .ok (Program.call name)) (macros : u.macros = [(name, found)]) :
    t.program = Program.call name ∧ ∃ m, m.StemsFrom parser args found.template ∧
      ∀ key, Dictionary.get? t.macros key = if name = key then some m else none := by
  obtain ⟨v, here, own, _⟩ := @program_at _ _ _ _ stems [] _ rfl
  obtain rfl := Option.some.inj here
  have known : ∀ key, Dictionary.get? u.macros key = if name = key then some found else none := by
    intro key
    rw [macros]
    exact Dictionary.get?_cons name found [] key
  have names := fun key => @isSome_macros _ _ _ _ _ stems [] u rfl rfl key
  have here := names name
  rw [known, if_pos rfl] at here
  obtain ⟨m, among⟩ := Option.isSome_iff_exists.mp here
  obtain ⟨found', again, below⟩ := stems.below compiler among
  rw [known, if_pos rfl] at again
  obtain rfl := Option.some.inj again
  refine ⟨Except.ok.inj (own.symm.trans program), m, below, fun key => ?_⟩
  by_cases same : name = key
  · rw [if_pos same, ← same, among]
  · rw [if_neg same, ← Option.isNone_iff_eq_none, ← Option.isSome_eq_false_iff, names, known, if_neg same]
    rfl

theorem selfContained_of_called {t m : Template} (program : t.program = Program.call name)
    (macros : ∀ key, Dictionary.get? t.macros key = if name = key then some m else none)
    (selfContained : m.SelfContained) : t.SelfContained := by
  rintro a ⟨path, reached⟩ key binds
  cases path with
  | nil =>
    obtain rfl := Option.some.inj reached
    rw [program] at binds
    obtain rfl : key = name := by
      cases binds with
      | here member => simpa [Program.call] using member
      | branch member => simp [Program.call] at member
      | each member => simp [Program.call] at member
    rw [macros, if_pos rfl]
    exact .inl rfl
  | cons first path =>
    rw [at?, macros] at reached
    split at reached
    · exact selfContained a ⟨path, reached⟩ key binds
    · cases reached

/-- A template that calls its macro is rendered as one that stems from the same source as the macro, and does not
have the name of the macro in it. -/
theorem renderText_called (stems : t.StemsFrom parser args u) (stems' : b.StemsFrom parser args u')
    (compiler : parser.compiler = Program.compiler) (program : Program.ofChunks u.chunks = .ok (Program.call name))
    (macros : u.macros = [(name, found)]) (alike : u'.Alike found.template) (streams : u.stream = u'.stream)
    (own : b.BindsOwn) (unnamed : ¬ b.Mentions name) {parameters : Option Parameters}
    (free : (parameters.getD []).TemplateFree) (depth : Nat) (accepts : Text → Bool) (s s' : Stage) :
    (t.renderText (depth + 1) parameters accepts).result s = (b.renderText depth parameters accepts).result s' := by
  obtain ⟨calls, m, below, known⟩ := stems.called compiler program macros
  have selfContained := stems'.selfContained_alike below alike.sameCode rfl own.selfContained
  have contained := selfContained_of_called calls known selfContained
  have printing := stems.printing_eq stems'
  have told : t.told (depth + 1) parameters = b.told depth parameters := by
    have bound : realm.macro? t name = some m := by
      show t.macro? name = some m
      rw [macro?, known, if_pos rfl, Option.some_or]
    rw [Template.told, Realm.account_call calls bound]
    -- the two are given the same values but for the macro itself, which goes by a name that is not in the text
    have kin := stems'.kinship below alike.sameCode own.selfContained selfContained
      (fun key hidden => (hidden : key = name) ▸ unnamed)
    have scopes : ∀ key, ¬ key = name → (Parameters.scope (parameters.getD []) key).Alike (b.AtOnePlace m)
        ((Parameters.scope (parameters.getD [])).set name (.template m) key) := by
      intro key other
      rw [Scope.set, if_neg (Ne.symm other)]
      exact free.alike _ key
    have both := kin.included depth b m ⟨[], rfl, rfl⟩ _ _ scopes
    rw [Template.told]
    generalize realm.account depth m _ = x at both
    generalize realm.account depth b _ = y at both
    cases both with
    | none => rfl
    | some matched =>
      cases matched with
      | ok same => rw [same]
      | error lacking => exact (not_lacking own lacking).elim
  have text : t.textOf = b.textOf := by
    funext output
    cases output with
    | text => rfl
    | bytes content =>
      show t.printing.formatBytes content = b.printing.formatBytes content
      rw [printing]
  rw [renderText_result (stems.company contained) ⟨[], rfl⟩ (free.within _),
    renderText_result (stems'.company own.selfContained) ⟨[], rfl⟩ (free.within _), told, printing, streams, text]

end Template.StemsFrom

/-- Text, or a value that comes about without the name. -/
def Statement.spares (name : Text) : Statement → Bool
  | .text _ => true
  | .value e => !e.names.contains name
  | _ => false

theorem Template.not_mentions_of_spared {t : Template} {name : Text} (bare : t.macros = [])
    (spared : t.program.all (Statement.spares name) = true) : ¬ t.Mentions name := by
  rintro ⟨a, ⟨path, reached⟩, statement, has, mentions⟩
  obtain rfl : t = a := by
    cases path with
    | nil => exact Option.some.inj reached
    | cons first path =>
      rw [at?, bare] at reached
      cases reached
  have each := List.all_eq_true.mp spared
  have simple : ∀ statement ∈ t.program, (∃ t, statement = .text t) ∨ ∃ e, statement = .value e := by
    intro statement member
    have spares := each statement member
    cases statement with
    | text t => exact .inl ⟨t, rfl⟩
    | value e => exact .inr ⟨e, rfl⟩
    | _ => cases spares
  have member := Program.mem_of_simple simple has
  have spares := each statement member
  rcases simple statement member with ⟨t, rfl⟩ | ⟨e, rfl⟩
  · exact mentions
  · rw [Statement.spares, List.contains_iff_mem.mpr mentions] at spares
    cases spares

/-- Setting a text apart as a macro and calling it behind makes no difference, but for one more level of inclusion:
the whole can be compiled just if the text by itself can be, and constructed with what the text can be constructed
with; then the two are rendered to the same text, if the name of the macro is not in the program of the text. -/
theorem abstraction_preserves_rendering {parser : Parser TemplateClass} (names : parser.names = .default)
    (demo : parser.dialect = Program.dialect) (compiler : parser.compiler = Program.compiler) {name body : Text}
    (apart : SetApart name body) (unmarked : body.Unmarked) {whole part : Resource}
    (source : whole.source = abstracted name body) (source' : part.source = body)
    (size : whole.source.byteSize < Marker.lengthBound) (stream : Bool) :
    ((∃ events template c, parser.compile stream whole = (events, .ok (template, c))) ↔
      ∃ events template c, parser.compile stream part = (events, .ok (template, c))) ∧
    ∀ events template c events' template' c', parser.compile stream whole = (events, .ok (template, c)) →
      parser.compile stream part = (events', .ok (template', c')) → ∀ args : TemplateArguments,
      ((∃ t, c.instantiate args = .ok t) ↔ ∃ b, c'.instantiate args = .ok b) ∧
      ∀ t b, c.instantiate args = .ok t → c'.instantiate args = .ok b → ¬ b.Mentions name →
        ∀ parameters : Option Parameters, (parameters.getD []).TemplateFree → ∀ depth accepts s s',
          (t.renderText (depth + 1) parameters accepts).result s =
            (b.renderText depth parameters accepts).result s' := by
  refine ⟨apart.compiles_iff names compiler source source' demo size, ?_⟩
  intro events template c events' template' c' compiled compiled' args
  obtain ⟨parsed, made⟩ := Parser.compile_ok compiled
  obtain ⟨parsed', made'⟩ := Parser.compile_ok compiled'
  have program := apart.program_eq names source demo size parsed
  obtain ⟨found, macros, alike⟩ := apart.macro_alike names compiler source source' compiled compiled'
  rw [compiler] at made made'
  have all := Parser.compiledFrom compiler parsed made
  have all' := Parser.compiledFrom compiler parsed' made'
  refine ⟨all.instantiate_iff.trans all'.instantiate_iff.symm, ?_⟩
  intro t b instance_ok instance_ok' unnamed parameters free depth accepts s s'
  have stems := Template.StemsFrom.of_compile compiler compiled instance_ok
  have stems' := Template.StemsFrom.of_compile compiler compiled' instance_ok'
  obtain ⟨_, stream_eq⟩ := Parser.parsed_from parsed
  obtain ⟨resource_eq, stream_eq'⟩ := Parser.parsed_from parsed'
  have own : b.BindsOwn := stems'.bindsOwn demo (names ▸ DirectiveNames.plain_var)
    (names ▸ DirectiveNames.isAttributeWord_var) (by rw [resource_eq, source']; exact unmarked)
  have streams : template.stream = template'.stream := stream_eq.trans stream_eq'.symm
  exact stems.renderText_called stems' compiler program macros alike streams own unnamed free depth accepts s s'

/-- A parameter goes by the name that the macro is given. -/
theorem abstraction_preserves_rendering_of_element :
    let parser : Parser TemplateClass := ⟨.default, Program.dialect, Program.compiler⟩
    let body : Text := "<b>${x}</b>"
    let whole : Resource := { name := "w", source := abstracted "m" body }
    let part : Resource := { name := "p", source := body }
    let parameters : Option Parameters := some [("x", .str "a"), ("m", .str "b")]
    SetApart "m" body ∧ body.Unmarked ∧ whole.source.byteSize < Marker.lengthBound ∧
      (parameters.getD []).TemplateFree ∧
      ∃ events template c t events' template' c' b, parser.compile false whole = (events, .ok (template, c)) ∧
        c.instantiate {} = .ok t ∧ parser.compile false part = (events', .ok (template', c')) ∧
        c'.instantiate {} = .ok b ∧ ¬ b.Mentions "m" ∧
        (t.renderText 2 parameters fun _ => true).result {} = some (.ok "<b>a</b>") ∧
        (b.renderText 1 parameters fun _ => true).result {} = some (.ok "<b>a</b>") := by
  intro parser body whole part parameters
  have outer : ∀ node ∈ body.nodes, node ≠ .comment node.span := by decide +kernel
  have apart : SetApart "m" body :=
    ⟨by decide +kernel, by decide, by decide +kernel, fun span member => absurd rfl (outer _ member)⟩
  have unmarked : body.Unmarked := by decide +kernel
  have size : whole.source.byteSize < Marker.lengthBound := by decide +kernel
  have free : (parameters.getD []).TemplateFree := by
    rintro name v member t rfl
    simp [parameters] at member
  have rendered : ((parser.compile false part).2.toOption.bind fun compiled =>
      (compiled.2.instantiate {}).toOption.map fun b => ((b.renderText 1 parameters fun _ => true).result {},
        b.macros.isEmpty && b.program.all (Statement.spares "m"))) = some (some (.ok "<b>a</b>"), true) := by
    decide +kernel
  obtain ⟨⟨template', c'⟩, compiled', rest⟩ := Option.bind_eq_some_iff.mp rendered
  obtain ⟨b, instantiated, known⟩ := Option.map_eq_some_iff.mp rest
  obtain ⟨text, quiet⟩ := Prod.mk.inj known
  have whole' : parser.compile false part = (_, .ok (template', c')) := Prod.ext rfl (ok_of_toOption compiled')
  have made' := ok_of_toOption instantiated
  obtain ⟨either, alike⟩ := @abstraction_preserves_rendering parser rfl rfl rfl _ _ apart unmarked whole part rfl rfl
    size false
  obtain ⟨events, template, c, compiled⟩ := either.mpr ⟨_, template', c', whole'⟩
  obtain ⟨constructed, same⟩ := alike _ _ _ _ _ _ compiled whole' {}
  obtain ⟨t, made⟩ := constructed.mpr ⟨b, made'⟩
  obtain ⟨bare, spared⟩ := Bool.and_eq_true_iff.mp quiet
  have unnamed := Template.not_mentions_of_spared (List.isEmpty_iff.mp bare) spared
  exact ⟨apart, unmarked, size, free, events, template, c, t, _, template', c', b, compiled, made, whole', made',
    unnamed, (same t b made made' unnamed parameters free 1 _ {} {}).trans text, text⟩

end MarkupTemplates
