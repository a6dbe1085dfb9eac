import MarkupTemplates.Proofs.Rendering.Mirrors

namespace MarkupTemplates

namespace ParsedTemplate

variable {Compiled : Type} {u v : ParsedTemplate Compiled}

/-- The digest is one of the name and the code alone. -/
theorem digest_eq (named : u.resource.name = v.resource.name) (code : u.code = v.code) : u.digest = v.digest := by
  have same : u.identity = v.identity := by rw [identity, identity, named, code]
  exact congrArg (fun bytes => Text.ofBytes (Digest.blake2s bytes)) same

theorem className_eq (named : u.resource.name = v.resource.name) (code : u.code = v.code) :
    u.className = v.className :=
  congrArg (fun digest => ("Template_" : Text) ++ digest.take 16) (digest_eq named code)

theorem SameCode.intro (code : u.code = v.code) (macros : ∀ name, Option.Rel (fun a b => a.template.SameCode b.template)
    (Dictionary.get? u.macros name) (Dictionary.get? v.macros name)) : u.SameCode v := by
  intro path
  cases path with
  | nil => exact .some code
  | cons name path =>
    have below := macros name
    rw [at?, at?]
    generalize Dictionary.get? u.macros name = found at below
    generalize Dictionary.get? v.macros name = found' at below
    cases below with
    | none => exact .none
    | some codes => exact codes path

end ParsedTemplate

/-- Templates that are made of one name and one code count as the same. -/
theorem Template.MadeFrom.identity_eq {args args' : TemplateArguments} {u v : ParsedTemplate TemplateClass}
    {a b : Template} (made : a.MadeFrom args u) (made' : b.MadeFrom args' v)
    (named : u.resource.name = v.resource.name) (code : u.code = v.code) : a.identity = b.identity := by
  rw [identity, identity, made.name, made'.name, made.className, made'.className, named,
    ParsedTemplate.className_eq named code]

namespace Template.StemsFrom

variable {parser parser' : Parser TemplateClass} {args : TemplateArguments} {u u' : ParsedTemplate TemplateClass}
  {t t' : Template}

theorem same_of_code (one : t.StemsFrom parser args u) (other : t'.StemsFrom parser' args u')
    (named : u.resource.name = u'.resource.name) (code : u.code = u'.code) : t.same t' = true := by
  obtain ⟨v, found, own, _⟩ := @made_at _ _ _ _ _ one [] rfl
  obtain ⟨v', found', own', _⟩ := @made_at _ _ _ _ _ other [] rfl
  obtain rfl := Option.some.inj found
  obtain rfl := Option.some.inj found'
  exact decide_eq_true (own.identity_eq own' named code)

/-- Templates that stem from sources of one name and of the same code, with the same arguments, stand in for each
other, and so does all that comes to be bound where they are rendered, as long as no script is reached. -/
theorem doubles (one : t.StemsFrom parser args u) (other : t'.StemsFrom parser' args u') (codes : u.SameCode u')
    (named : u.resource.name = u'.resource.name) (stream : u.stream = u'.stream) (only : t.OnlyPrograms) :
    Doubles fun a b => t.Reaches a ∧ (t.AtOnePlace t' a b ∨ a = b) where
  identity a b related := by
    rcases related.2 with ⟨path, reached, reached'⟩ | rfl
    · obtain ⟨v, found, made, _, name, _⟩ := one.made_at reached
      obtain ⟨v', found', made', _, name', _⟩ := other.made_at reached'
      have same := codes path
      rw [found, found'] at same
      cases same with
      | some same => exact made.identity_eq made' (by rw [name, name', named]) same
    · rfl
  program a b related := by
    obtain ⟨p, body⟩ := only a related.1
    rcases related.2 with both | rfl
    · have programs := one.program_alike other codes both
      obtain ⟨_, _, reached'⟩ := both
      obtain ⟨_, _, _, body'⟩ := other.program_at reached'
      rw [← programs, Template.program, body] at body'
      exact ⟨p, body, body'⟩
    · exact ⟨p, body, body⟩
  printing a b related := by
    rcases related.2 with ⟨path, reached, reached'⟩ | rfl
    · obtain ⟨_, _, made, _⟩ := one.made_at reached
      obtain ⟨_, _, made', _⟩ := other.made_at reached'
      exact Except.ok.inj (made.printing.symm.trans made'.printing)
    · rfl
  stream a b related := by
    rcases related.2 with ⟨path, reached, reached'⟩ | rfl
    · obtain ⟨_, _, made, own, _⟩ := one.made_at reached
      obtain ⟨_, _, made', own', _⟩ := other.made_at reached'
      rw [made.stream, made'.stream, own, own', stream]
    · rfl
  macros a b related name binds := by
    obtain ⟨met, related⟩ := related
    rcases related with both | rfl
    · have names := one.macros_alike other codes both name
      have imports := one.imported_alike other rfl both
      obtain ⟨path, reached, reached'⟩ := both
      have below {c : Template} (found : a.macro? name = some c) : t.Reaches c := .bound met binds found
      rw [macro?] at below ⊢
      rw [macro?, ← imports]
      cases own : Dictionary.get? a.macros name with
      | some c =>
        rw [own] at names below
        obtain ⟨c', own'⟩ := Option.isSome_iff_exists.mp names.symm
        rw [own', Option.some_or, Option.some_or]
        exact .some ⟨below (Option.some_or ..), .inl
          ⟨path ++ [name], by rw [at?_concat reached, own], by rw [at?_concat reached', own']⟩⟩
      | none =>
        rw [own] at names below
        rw [Option.isNone_iff_eq_none.mp (Option.isSome_eq_false_iff.mp names.symm), Option.none_or]
        rw [Option.none_or] at below
        cases found : Dictionary.get? a.imported name with
        | none => exact .none
        | some c => exact .some ⟨below found, .inr rfl⟩
    · cases found : a.macro? name with
      | none => exact .none
      | some c => exact .some ⟨.bound met binds found, .inr rfl⟩

end Template.StemsFrom

/-- Templates count as the same if they are of one name and one code. They also come to the same, wherever they are
rendered, if they are constructed alike and given the same parameters, none of which is a template, and the code of
their macros is the same at all depths: that is not in the digest. Whatever else the sources say makes no difference as
long as no script is reached, which could ask for it: none is if only templates with programs are imported, or if no
mark that encloses code stands in the source or in the value of an attribute. -/
theorem same_code_renders_alike {parser parser' : Parser TemplateClass} (names : parser.names = .default)
    (demo : parser.dialect = Program.dialect) (compiler : parser.compiler = Program.compiler)
    (compiler' : parser'.compiler = Program.compiler) {stream : Bool} {resource resource' : Resource}
    {events events' : List Event} {template template' : ParsedTemplate TemplateClass} {c c' : TemplateClass}
    (one : parser.compile stream resource = (events, .ok (template, c)))
    (other : parser'.compile stream resource' = (events', .ok (template', c')))
    (named : resource.name = resource'.name) (codes : template.SameCode template') {args : TemplateArguments}
    {t t' : Template} (made : c.instantiate args = .ok t) (made' : c'.instantiate args = .ok t') :
    template.digest = template'.digest ∧ template.className = template'.className ∧ t.same t' = true ∧
    (resource.source.Unmarked ∨ (∀ name b, Dictionary.get? args.imported name = some b → b.OnlyPrograms) →
      t.OnlyPrograms) ∧
    (t.OnlyPrograms → ∀ parameters : Option Parameters, (parameters.getD []).TemplateFree → ∀ depth s s',
      (t.evaluate (Template.runWithin depth) parameters).result s =
        (t'.evaluate (Template.runWithin depth) parameters).result s' ∧
      ∀ accepts, (t.renderText depth parameters accepts).result s =
        (t'.renderText depth parameters accepts).result s') := by
  have stems := Template.StemsFrom.of_compile compiler one made
  have stems' := Template.StemsFrom.of_compile compiler' other made'
  obtain ⟨source, stream_own⟩ := Parser.parsed_from (Parser.compile_ok one).1
  obtain ⟨source', stream_own'⟩ := Parser.parsed_from (Parser.compile_ok other).1
  have named : template.resource.name = template'.resource.name := by rw [source, source', named]
  have streams : template.stream = template'.stream := stream_own.trans stream_own'.symm
  have code : template.code = template'.code := by
    have here := codes []
    cases here with
    | some same => exact same
  refine ⟨ParsedTemplate.digest_eq named code, ParsedTemplate.className_eq named code,
    stems.same_of_code stems' named code, fun condition => ?_, fun only parameters free depth s s' => ?_⟩
  · exact stems.onlyPrograms demo (names ▸ DirectiveNames.plain_var) (names ▸ DirectiveNames.isAttributeWord_var)
      (source ▸ condition)
  · have doubles := stems.doubles stems' codes named streams only
    have here : t.Reaches t ∧ (t.AtOnePlace t' t t' ∨ t = t') := ⟨.self, .inl ⟨[], rfl, rfl⟩⟩
    have evaluated : (t.evaluate (Template.runWithin depth) parameters).result s =
        (t'.evaluate (Template.runWithin depth) parameters).result s' := by
      rw [Template.result_evaluate, Template.result_evaluate]
      exact doubles.fill_eq here free (s.fresh_push t parameters) (s'.fresh_push t' parameters)
    have shown : t.textOf = t'.textOf := by
      funext output
      cases output with
      | text content => rfl
      | bytes content => rw [Template.textOf, Template.textOf, doubles.printing t t' here]
    refine ⟨evaluated, fun accepts => ?_⟩
    rw [Template.result_renderText, Template.result_renderText, evaluated, shown]

/-- Two sources of one name in which a macro is declared in different quotes. -/
theorem same_code_renders_alike_in_other_quotes :
    let parser : Parser TemplateClass := ⟨.default, Program.dialect, Program.compiler⟩
    let resource : Resource := { name := "t", source := "<b macro='m'>${x}</b>${m}" }
    let resource' : Resource := { name := "t", source := "<b macro=\"m\">${x}</b>${m}" }
    let parameters : Option Parameters := some [("x", .bool true)]
    resource.source.Unmarked ∧ (parameters.getD []).TemplateFree ∧ ∃ events events' template template' c c' t t',
      parser.compile false resource = (events, .ok (template, c)) ∧
      parser.compile false resource' = (events', .ok (template', c')) ∧ resource.name = resource'.name ∧
      template.SameCode template' ∧ c.instantiate {} = .ok t ∧ c'.instantiate {} = .ok t' ∧
      template.digest = template'.digest ∧ t.same t' = true ∧
      (t.renderText 2 parameters fun _ => true).result {} = some (.ok "<b>true</b>") ∧
      (t'.renderText 2 parameters fun _ => true).result {} = some (.ok "<b>true</b>") := by
  intro parser resource resource' parameters
  have unmarked : resource.source.Unmarked := by decide +kernel
  have free : (parameters.getD []).TemplateFree := by
    rintro name v member t rfl
    cases List.mem_singleton.mp member
  let outline (u : ParsedTemplate TemplateClass) : List (Text × Text × List Text) :=
    u.macros.map fun entry => (entry.1, entry.2.template.code, Dictionary.keys entry.2.template.macros)
  let outlined : List (Text × Text × List Text) := [("m", "<b>${x}</b>", [])]
  have rendered : ((parser.compile false resource).2.toOption.bind fun (u, c) =>
      (parser.compile false resource').2.toOption.bind fun (v, c') =>
        (c.instantiate {}).toOption.bind fun t => (c'.instantiate {}).toOption.map fun _ =>
          (decide (u.code = v.code ∧ outline u = outlined ∧ outline v = outlined),
            (t.renderText 2 parameters fun _ => true).result {})) =
      some (true, some (.ok "<b>true</b>")) := by
    decide +kernel
  obtain ⟨⟨u, c⟩, compiled, rest⟩ := Option.bind_eq_some_iff.mp rendered
  obtain ⟨⟨v, c'⟩, compiled', rest⟩ := Option.bind_eq_some_iff.mp rest
  obtain ⟨t, made, rest⟩ := Option.bind_eq_some_iff.mp rest
  obtain ⟨t', made', results⟩ := Option.map_eq_some_iff.mp rest
  obtain ⟨codes, text⟩ := Prod.mk.inj results
  obtain ⟨code, below, below'⟩ := of_decide_eq_true codes
  have whole : parser.compile false resource = (_, .ok (u, c)) := Prod.ext rfl (ok_of_toOption compiled)
  have whole' : parser.compile false resource' = (_, .ok (v, c')) := Prod.ext rfl (ok_of_toOption compiled')
  obtain ⟨⟨_, m⟩, macros, own⟩ := List.map_eq_singleton_iff.mp below
  obtain ⟨⟨_, m'⟩, macros', own'⟩ := List.map_eq_singleton_iff.mp below'
  obtain ⟨rfl, inner, none⟩ : _ = _ ∧ m.template.code = _ ∧ Dictionary.keys m.template.macros = [] :=
    ⟨(Prod.mk.inj own).1, Prod.mk.inj (Prod.mk.inj own).2⟩
  obtain ⟨rfl, inner', none'⟩ : _ = _ ∧ m'.template.code = _ ∧ Dictionary.keys m'.template.macros = [] :=
    ⟨(Prod.mk.inj own').1, Prod.mk.inj (Prod.mk.inj own').2⟩
  have codes : u.SameCode v := by
    refine .intro code fun name => ?_
    rw [macros, macros', Dictionary.get?_cons, Dictionary.get?_cons]
    by_cases same : ("m" : Text) = name
    · rw [if_pos same, if_pos same]
      refine .some (.intro (inner.trans inner'.symm) fun name => ?_)
      rw [List.map_eq_nil_iff.mp none, List.map_eq_nil_iff.mp none']
      exact .none
    · rw [if_neg same, if_neg same]
      exact .none
  obtain ⟨digests, _, same, programs, all⟩ := same_code_renders_alike rfl rfl rfl rfl whole whole' rfl codes
    (ok_of_toOption made) (ok_of_toOption made')
  have again := (all (programs (.inl unmarked)) parameters free 2 {} {}).2 fun _ => true
  exact ⟨unmarked, free, _, _, u, v, c, c', t, t', whole, whole', rfl, codes, ok_of_toOption made,
    ok_of_toOption made', digests, same, text, again.symm.trans text⟩

/-- What a macro says is not in the digest: two sources of one name give templates that count as the same, but come to
different texts. So do two sources of the same code at all depths where a piece of code in their text binds a script
from outside that writes the source. -/
theorem same_template_different_text :
    let parser : Parser TemplateClass := ⟨.default, Program.dialect, Program.compiler⟩
    let resource : Resource := { name := "t", source := "<b macro='m'>1</b>${m}" }
    let resource' : Resource := { name := "t", source := "<b macro='m'>2</b>${m}" }
    let quoted : Resource := { name := "t", source := "<!--set='y=1'-->\x020:bind:x\x03${x}" }
    let quoted' : Resource := { name := "t", source := "<!--set=\"y=1\"-->\x020:bind:x\x03${x}" }
    let teller : TemplateClass := ⟨{ className := "teller" }, .script [.writeDetail (.own 1) .source], []⟩
    (∃ events events' template template' c c' t t',
      parser.compile false resource = (events, .ok (template, c)) ∧
      parser.compile false resource' = (events', .ok (template', c')) ∧ resource.name = resource'.name ∧
      template.code = template'.code ∧ template.digest = template'.digest ∧ template.className = template'.className ∧
      c.instantiate {} = .ok t ∧ c'.instantiate {} = .ok t' ∧ t.same t' = true ∧
      (t.renderText 2 none fun _ => true).result {} = some (.ok "<b>1</b>") ∧
      (t'.renderText 2 none fun _ => true).result {} = some (.ok "<b>2</b>")) ∧
    ∃ o events events' template template' c c' t t', teller.instantiate {} = .ok o ∧
      parser.compile false quoted = (events, .ok (template, c)) ∧
      parser.compile false quoted' = (events', .ok (template', c')) ∧ quoted.name = quoted'.name ∧
      template.SameCode template' ∧ c.instantiate { imported := [("x", o)] } = .ok t ∧
      c'.instantiate { imported := [("x", o)] } = .ok t' ∧ t.same t' = true ∧
      (t.renderText 2 none fun _ => true).result {} = some (.ok quoted.source) ∧
      (t'.renderText 2 none fun _ => true).result {} = some (.ok quoted'.source) := by
  intro parser resource resource' quoted quoted' teller
  refine ⟨?_, ?_⟩
  · have rendered : ((parser.compile false resource).2.toOption.bind fun (u, c) =>
        (parser.compile false resource').2.toOption.bind fun (v, c') =>
          (c.instantiate {}).toOption.bind fun t => (c'.instantiate {}).toOption.map fun t' =>
            (decide (u.code = v.code), (t.renderText 2 none fun _ => true).result {},
              (t'.renderText 2 none fun _ => true).result {})) =
        some (true, some (.ok "<b>1</b>"), some (.ok "<b>2</b>")) := by
      decide +kernel
    obtain ⟨⟨u, c⟩, compiled, rest⟩ := Option.bind_eq_some_iff.mp rendered
    obtain ⟨⟨v, c'⟩, compiled', rest⟩ := Option.bind_eq_some_iff.mp rest
    obtain ⟨t, made, rest⟩ := Option.bind_eq_some_iff.mp rest
    obtain ⟨t', made', results⟩ := Option.map_eq_some_iff.mp rest
    obtain ⟨code, texts⟩ := Prod.mk.inj results
    obtain ⟨text, text'⟩ := Prod.mk.inj texts
    have code := of_decide_eq_true code
    have whole : parser.compile false resource = (_, .ok (u, c)) := Prod.ext rfl (ok_of_toOption compiled)
    have whole' : parser.compile false resource' = (_, .ok (v, c')) := Prod.ext rfl (ok_of_toOption compiled')
    have named : u.resource.name = v.resource.name := by
      rw [(Parser.parsed_from (Parser.compile_ok whole).1).1, (Parser.parsed_from (Parser.compile_ok whole').1).1]
    have stems := Template.StemsFrom.of_compile rfl whole (ok_of_toOption made)
    have same := stems.same_of_code (.of_compile rfl whole' (ok_of_toOption made')) named code
    exact ⟨_, _, u, v, c, c', t, t', whole, whole', rfl, code, ParsedTemplate.digest_eq named code,
      ParsedTemplate.className_eq named code, ok_of_toOption made, ok_of_toOption made', same, text, text'⟩
  · have rendered : ((teller.instantiate {}).toOption.bind fun o =>
        (parser.compile false quoted).2.toOption.bind fun (u, c) =>
          (parser.compile false quoted').2.toOption.bind fun (v, c') =>
            (c.instantiate { imported := [("x", o)] }).toOption.bind fun t =>
              (c'.instantiate { imported := [("x", o)] }).toOption.map fun t' =>
                (decide (u.code = v.code ∧ Dictionary.keys u.macros = [] ∧ Dictionary.keys v.macros = []),
                  (t.renderText 2 none fun _ => true).result {}, (t'.renderText 2 none fun _ => true).result {})) =
        some (true, some (.ok quoted.source), some (.ok quoted'.source)) := by
      decide +kernel
    obtain ⟨o, tells, rest⟩ := Option.bind_eq_some_iff.mp rendered
    obtain ⟨⟨u, c⟩, compiled, rest⟩ := Option.bind_eq_some_iff.mp rest
    obtain ⟨⟨v, c'⟩, compiled', rest⟩ := Option.bind_eq_some_iff.mp rest
    obtain ⟨t, made, rest⟩ := Option.bind_eq_some_iff.mp rest
    obtain ⟨t', made', results⟩ := Option.map_eq_some_iff.mp rest
    obtain ⟨codes, texts⟩ := Prod.mk.inj results
    obtain ⟨text, text'⟩ := Prod.mk.inj texts
    obtain ⟨code, none, none'⟩ := of_decide_eq_true codes
    have codes : u.SameCode v := .intro code fun name => by
      rw [List.map_eq_nil_iff.mp none, List.map_eq_nil_iff.mp none']
      exact .none
    have whole : parser.compile false quoted = (_, .ok (u, c)) := Prod.ext rfl (ok_of_toOption compiled)
    have whole' : parser.compile false quoted' = (_, .ok (v, c')) := Prod.ext rfl (ok_of_toOption compiled')
    have named : u.resource.name = v.resource.name := by
      rw [(Parser.parsed_from (Parser.compile_ok whole).1).1, (Parser.parsed_from (Parser.compile_ok whole').1).1]
    have stems := Template.StemsFrom.of_compile rfl whole (ok_of_toOption made)
    have same := stems.same_of_code (.of_compile rfl whole' (ok_of_toOption made')) named code
    exact ⟨o, _, _, u, v, c, c', t, t', ok_of_toOption tells, whole, whole', rfl, codes, ok_of_toOption made,
      ok_of_toOption made', same, text, text'⟩

end MarkupTemplates
