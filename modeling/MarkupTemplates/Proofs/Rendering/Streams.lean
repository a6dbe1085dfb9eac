import MarkupTemplates.Proofs.Rendering.Companies
import MarkupTemplates.Proofs.Template.Compiling

namespace MarkupTemplates

namespace Template.StemsFrom

variable {parser parser' : Parser TemplateClass} {args args' : TemplateArguments}
  {u u' : ParsedTemplate TemplateClass} {t t' : Template}

theorem printing_eq (one : t.StemsFrom parser args u) (other : t'.StemsFrom parser' args u') :
    t.printing = t'.printing := by
  obtain ⟨_, _, made, _⟩ := @made_at _ _ _ _ _ one [] rfl
  obtain ⟨_, _, made', _⟩ := @made_at _ _ _ _ _ other [] rfl
  exact Except.ok.inj (made.printing.symm.trans made'.printing)

/-- Templates at one place of two that go by the same name go by the same name themselves. -/
theorem error_eq (one : t.StemsFrom parser args u) (other : t'.StemsFrom parser' args' u')
    (named : u.resource.name = u'.resource.name) {e f : UnknownMacro Template}
    (lacking : Lacking realm (t.AtOnePlace t') e f) : e.error = f.error := by
  obtain ⟨⟨path, reached, reached'⟩, same, _⟩ := lacking
  obtain ⟨_, _, made, _, name, _⟩ := one.made_at reached
  obtain ⟨_, _, made', _, name', _⟩ := other.made_at reached'
  rw [UnknownMacro.error, UnknownMacro.error, made.name, made'.name, name, name', named, same]

/-- Encoding each piece as it is written comes to what encoding the whole text at the end comes to. -/
theorem renderBytes_alike (one : t.StemsFrom parser args u) (other : t'.StemsFrom parser' args u')
    (codes : u.SameCode u') (named : u.resource.name = u'.resource.name) (selfContained : t.SelfContained)
    {parameters : Option Parameters} (free : (parameters.getD []).TemplateFree)
    (depth : Nat) (refusal : List UInt8 → Option Text) (s s' : Stage) :
    (t.renderBytes depth parameters refusal).result s = (t'.renderBytes depth parameters refusal).result s' := by
  have printing := one.printing_eq other
  have bytes (stream : Bool) (a : Template) (own : a.printing = t.printing) (deeds : List Deed) :
      a.bytesOf (.told t.printing stream deeds) = t.printing.serialize (t.printing.told deeds) := by
    cases stream with
    | true => rfl
    | false =>
      rw [← own]
      rfl
  have selfContained' := one.selfContained_alike other codes rfl selfContained
  have told := one.told_alike other codes selfContained selfContained' free depth
  rw [renderBytes_result (one.company selfContained) ⟨[], rfl⟩ (free.within _),
    renderBytes_result (other.company selfContained') ⟨[], rfl⟩ (free.within _),
    ← printing]
  generalize t.told depth parameters = x at told
  generalize t'.told depth parameters = y at told
  cases told with
  | none => rfl
  | some matched =>
    cases matched with
    | @ok deeds deeds' same =>
      simp only [Option.map_some, Except.map, mapError_ok, Except.bind, same,
        bytes u.stream t rfl, bytes u'.stream t' printing.symm]
    | error lacking =>
      simp only [Option.map_some, Except.map, mapError_error, Except.bind, one.error_eq other named lacking]

end Template.StemsFrom

/-- A source can be compiled as a stream just if it can be compiled otherwise, and constructing the one template takes
nothing but what constructing the other takes. As long as no program binds a macro from outside, the two give the
same bytes or fail in the same way. None does so if nothing is there to be bound, or if neither the source nor the
value of an attribute holds a mark that encloses code. -/
theorem streams_give_same_bytes {parser : Parser TemplateClass} (names : parser.names = .default)
    (demo : parser.dialect = Program.dialect) (compiler : parser.compiler = Program.compiler) (resource : Resource) :
    ((∃ events template c, parser.compile false resource = (events, .ok (template, c))) ↔
      ∃ events template c, parser.compile true resource = (events, .ok (template, c))) ∧
    ∀ events template c events' template' c', parser.compile false resource = (events, .ok (template, c)) →
      parser.compile true resource = (events', .ok (template', c')) → ∀ args : TemplateArguments,
      ((∃ t, c.instantiate args = .ok t) ↔ ∃ t, c'.instantiate args = .ok t) ∧
      ∀ t t', c.instantiate args = .ok t → c'.instantiate args = .ok t' →
        (resource.source.Unmarked ∨ args.imported = [] → t.SelfContained) ∧
        (t.SelfContained → ∀ parameters : Option Parameters, (parameters.getD []).TemplateFree →
          ∀ depth refusal s s',
            (t.renderBytes depth parameters refusal).result s =
              (t'.renderBytes depth parameters refusal).result s') := by
  have word : IsAttributeWord (parser.names.name .var) := names ▸ DirectiveNames.isAttributeWord_var
  refine ⟨⟨fun ⟨_, _, _, compiled⟩ => ?_, fun ⟨_, _, _, compiled⟩ => ?_⟩, ?_⟩
  · obtain ⟨events, template, c, compiled', _⟩ := parser.compiled_alike compiler word true rfl compiled
    exact ⟨events, template, c, compiled'⟩
  · obtain ⟨events, template, c, compiled', _⟩ := parser.compiled_alike compiler word false rfl compiled
    exact ⟨events, template, c, compiled'⟩
  intro events template c events' template' c' compiled compiled' args
  obtain ⟨parsed, made⟩ := Parser.compile_ok compiled
  obtain ⟨parsed', made'⟩ := Parser.compile_ok compiled'
  have own := (Parser.parsed_from parsed).1
  have own' := (Parser.parsed_from parsed').1
  have alike : template.Alike template' := by
    obtain ⟨_, other, _, again, alike⟩ := parser.compiled_alike compiler word true rfl compiled
    obtain ⟨_, eq⟩ := Prod.mk.inj (compiled'.symm.trans again)
    obtain ⟨rfl, _⟩ := Prod.mk.inj (Except.ok.inj eq)
    exact alike
  rw [compiler] at made made'
  have all := Parser.compiledFrom compiler parsed made
  have all' := Parser.compiledFrom compiler parsed' made'
  refine ⟨all.instantiate_iff.trans all'.instantiate_iff.symm, fun t t' instance_ok instance_ok' => ?_⟩
  have stems := Template.StemsFrom.of_compile compiler compiled instance_ok
  have stems' := Template.StemsFrom.of_compile compiler compiled' instance_ok'
  refine ⟨?_, fun selfContained parameters free depth refusal s s' => ?_⟩
  · rintro (unmarked | nothing)
    · have var : (parser.names.name .var).Plain := names ▸ DirectiveNames.plain_var
      exact (stems.bindsOwn demo var word (by rw [own]; exact unmarked)).selfContained
    · rintro a ⟨path, reached⟩ name _
      obtain ⟨_, _, from_source, _⟩ := stems.made_at reached
      rw [from_source.imported, nothing]
      exact .inr rfl
  · exact stems.renderBytes_alike stems' alike.sameCode (by rw [own, own']) selfContained free depth refusal s s'

/-- A macro is included, and a letter outside of ASCII is written in Latin-1. -/
theorem streams_give_same_latin_bytes :
    let parser : Parser TemplateClass := ⟨.default, Program.dialect, Program.compiler⟩
    let resource : Resource := { name := "t", source := "<b macro='m'>${x}</b>é${m}" }
    let args : TemplateArguments := { settings := [("output.encoding", "ISO-8859-1")] }
    let parameters : Option Parameters := some [("x", .str "ü")]
    resource.source.Unmarked ∧ (parameters.getD []).TemplateFree ∧
      ∃ events template c t events' template' c' t', parser.compile false resource = (events, .ok (template, c)) ∧
        c.instantiate args = .ok t ∧ parser.compile true resource = (events', .ok (template', c')) ∧
        c'.instantiate args = .ok t' ∧ t.SelfContained ∧
        (t.renderBytes 2 parameters fun _ => none).result {} =
          some (.ok [0xe9, 0x3c, 0x62, 0x3e, 0xfc, 0x3c, 0x2f, 0x62, 0x3e]) ∧
        (t'.renderBytes 2 parameters fun _ => none).result {} =
          some (.ok [0xe9, 0x3c, 0x62, 0x3e, 0xfc, 0x3c, 0x2f, 0x62, 0x3e]) := by
  intro parser resource args parameters
  have unmarked : resource.source.Unmarked := by decide +kernel
  have free : (parameters.getD []).TemplateFree := by
    rintro name v member t rfl
    cases List.mem_singleton.mp member
  have rendered : ((parser.compile false resource).2.toOption.bind fun (_, c) =>
      (c.instantiate args).toOption.map fun t => (t.renderBytes 2 parameters fun _ => none).result {}) =
        some (some (.ok [0xe9, 0x3c, 0x62, 0x3e, 0xfc, 0x3c, 0x2f, 0x62, 0x3e])) := by
    decide +kernel
  obtain ⟨⟨template, c⟩, compiled, rest⟩ := Option.bind_eq_some_iff.mp rendered
  obtain ⟨t, instantiated, bytes⟩ := Option.map_eq_some_iff.mp rest
  have whole : parser.compile false resource = (_, .ok (template, c)) := Prod.ext rfl (ok_of_toOption compiled)
  have made := ok_of_toOption instantiated
  obtain ⟨either, alike⟩ := @streams_give_same_bytes parser rfl rfl rfl resource
  obtain ⟨events', template', c', whole'⟩ := either.mp ⟨_, template, c, whole⟩
  obtain ⟨constructed, same⟩ := alike _ _ _ _ _ _ whole whole' args
  obtain ⟨t', made'⟩ := constructed.mp ⟨t, made⟩
  obtain ⟨contained, same⟩ := same t t' made made'
  have selfContained := contained (.inl unmarked)
  exact ⟨unmarked, free, _, template, c, t, events', template', c', t', whole, made, whole', made', selfContained,
    bytes, (same selfContained parameters free 2 _ {} {}).symm.trans bytes⟩

/-- A template from outside that writes a byte which is no text by itself, included by the program of a source with a
piece of code in it. The stream passes the byte on, the other one makes a replacement character of it. -/
theorem streams_differ_on_foreign_bytes :
    let parser : Parser TemplateClass := ⟨.default, Program.dialect, Program.compiler⟩
    let resource : Resource := { name := "t", source := "\x020:bind:x\x03${x}" }
    let bytes : TemplateClass :=
      ⟨{ className := "B", name := some "b", stream := true }, .script [.writeBytes [0xff]], []⟩
    ∃ foreign events template c t events' template' c' t', bytes.instantiate {} = .ok foreign ∧
      parser.compile false resource = (events, .ok (template, c)) ∧
      c.instantiate { imported := [("x", foreign)] } = .ok t ∧
      parser.compile true resource = (events', .ok (template', c')) ∧
      c'.instantiate { imported := [("x", foreign)] } = .ok t' ∧
      (t.renderBytes 2 none fun _ => none).result {} = some (.ok [0xef, 0xbf, 0xbd]) ∧
      (t'.renderBytes 2 none fun _ => none).result {} = some (.ok [0xff]) := by
  intro parser resource bytes
  have rendered (stream : Bool) : (bytes.instantiate {}).toOption.bind (fun foreign =>
      (parser.compile stream resource).2.toOption.bind fun (_, c) =>
        (c.instantiate { imported := [("x", foreign)] }).toOption.map fun t =>
          (t.renderBytes 2 none fun _ => none).result {}) =
        some (some (.ok (if stream then [0xff] else [0xef, 0xbf, 0xbd]))) := by
    cases stream <;> decide +kernel
  have instance_of (stream : Bool) : ∃ foreign events template c t, bytes.instantiate {} = .ok foreign ∧
      parser.compile stream resource = (events, .ok (template, c)) ∧
      c.instantiate { imported := [("x", foreign)] } = .ok t ∧ (t.renderBytes 2 none fun _ => none).result {} =
        some (.ok (if stream then [0xff] else [0xef, 0xbf, 0xbd])) := by
    obtain ⟨foreign, made, rest⟩ := Option.bind_eq_some_iff.mp (rendered stream)
    obtain ⟨⟨template, c⟩, compiled, rest⟩ := Option.bind_eq_some_iff.mp rest
    obtain ⟨t, instantiated, text⟩ := Option.map_eq_some_iff.mp rest
    exact ⟨foreign, _, template, c, t, ok_of_toOption made, Prod.ext rfl (ok_of_toOption compiled),
      ok_of_toOption instantiated, text⟩
  obtain ⟨foreign, events, template, c, t, made, compiled, instantiated, text⟩ := instance_of false
  obtain ⟨foreign', events', template', c', t', made', compiled', instantiated', text'⟩ := instance_of true
  obtain rfl := Except.ok.inj (made.symm.trans made')
  exact ⟨foreign, events, template, c, t, events', template', c', t', made, compiled, instantiated, compiled',
    instantiated', text, text'⟩

end MarkupTemplates
