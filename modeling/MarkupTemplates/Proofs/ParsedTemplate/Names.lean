import MarkupTemplates.Proofs.ParsedTemplate.Agenda
import MarkupTemplates.Proofs.Program.Dialect

namespace MarkupTemplates

variable {Compiled : Type}

/-- How a macro is listed in a template: under its own name, which is a variable for templates, and with a
template that is named after it. -/
structure ListedAs (template : Text) (symbols : SymbolTable) (name : Text) (found : Macro Compiled) : Prop where
  own : found.name = name
  known : name ∈ symbols.names
  typed : symbols.types.get? name = some templateType
  path : found.template.resource.name = macroPath template name

/-- The names of a template are consistent, its macros are among them, and the same is true of the
templates of the macros. -/
inductive ParsedTemplate.NamesSound : ParsedTemplate Compiled → Prop
  | intro {template : ParsedTemplate Compiled} :
      template.symbols.Consistent →
      (∀ name found, (name, found) ∈ template.macros →
        ListedAs template.resource.name template.symbols name found) →
      (∀ name found, (name, found) ∈ template.macros → NamesSound found.template) → NamesSound template

namespace Walk

variable {job : Job Compiled} {w w' : Walk Compiled}

/-- What a walk can do to the names: a statement may declare some, and a macro declares its own. -/
inductive Naming (job : Job Compiled) (w w' : Walk Compiled) : Prop
  | same : w'.symbols = w.symbols → w'.macros = w.macros → Naming job w w'
  | statement {directive : Directive} {code : Text} :
      job.dialect.statement directive w.symbols = .ok (code, w'.symbols) → w'.macros = w.macros →
      Naming job w w'
  | defined (found : Macro Compiled) {text : Text} {events : List Event} :
      w.symbols.declare found.name templateType = .ok w'.symbols →
      job.parseBody (job.resource.extract found.name text) = (events, .ok found.template) →
      w'.macros = w.macros.insert found.name found → Naming job w w'

/-- What is done to the text of a source leaves the names as they are. -/
theorem Naming.edited {edits : Edits} (naming : Naming job w w') :
    Naming job w { w' with edits } := by
  cases naming with
  | same symbols macros => exact .same symbols macros
  | statement coded macros => exact .statement coded macros
  | defined found declared parsed macros => exact .defined found declared parsed macros

theorem statement_naming {directive : Directive} {code : Text}
    (h : w.statement job directive = .ok (code, w')) : Naming job w w' := by
  obtain ⟨symbols, coded, rfl⟩ := statement_done h
  exact .statement coded rfl

theorem register_naming {head : MacroHead} {body : MacroBody} {span : Span} {code : Text}
    (h : w.register job head body span = .ok (code, w')) : Naming job w w' := by
  obtain ⟨symbols, events, template, compiled, declared, parsed, _, _, rfl⟩ := register_done h
  exact .defined ⟨head.name, head.parameters, body.declaration, span, template, compiled⟩ declared parsed rfl

theorem elementMacro_naming {tag : Tag} {stop : Nat} {declaration : Attribute}
    (h : w.elementMacro job tag stop declaration = .ok w') : Naming job w w' := by
  obtain ⟨head, _, h⟩ := ok_of_bind h
  obtain ⟨⟨code, w1⟩, registered, placed⟩ := ok_of_bind h
  obtain rfl := Except.ok.inj placed
  exact (register_naming registered).edited

theorem runMacro_naming {opened : OpenMacro} {closing : Span}
    (h : w.runMacro job opened closing = .ok w') : Naming job w w' := by
  obtain ⟨head, _, h⟩ := ok_of_bind h
  obtain ⟨⟨code, w1⟩, registered, placed⟩ := ok_of_bind h
  obtain rfl := Except.ok.inj placed
  exact (register_naming registered).edited

theorem comment_naming {opened next : Option OpenMacro} {span : Span}
    (h : w.comment job opened span = .ok (next, w')) : Naming job w w' := by
  have own := comment_ok h
  cases role : commentRole job.names job.resource.source opened span with
  | text =>
    rw [role] at own
    obtain ⟨_, rfl⟩ := own
    exact .same rfl rfl
  | statement directive =>
    rw [role] at own
    obtain ⟨_, code, w1, coded, rfl⟩ := own
    exact (statement_naming coded).edited
  | ending name =>
    rw [role] at own
    obtain ⟨_, rfl⟩ := own
    exact .same rfl rfl
  | opensMacro found =>
    rw [role] at own
    obtain ⟨_, rfl⟩ := own
    cases opened <;> exact .same rfl rfl
  | closesMacro found =>
    rw [role] at own
    exact runMacro_naming own.2

theorem advance_naming {duty : Duty} {rest agenda : List Duty}
    (h : advance job w rest duty = .ok (w', agenda)) : Naming job w w' := by
  cases advance_advances h with
  | ended | passed | entered _ | closing => exact .same rfl rfl
  | comment commented => exact comment_naming commented
  | extracted _ made => exact elementMacro_naming made
  | statement coded => exact (statement_naming coded).edited

/-- The names that a walk has come to know are consistent, and so are those of the macros. -/
structure NamesSound (template : Text) (w : Walk Compiled) : Prop where
  symbols : w.symbols.Consistent
  macros : ∀ name found, (name, found) ∈ w.macros → ListedAs template w.symbols name found
  below : ∀ name found, (name, found) ∈ w.macros → ParsedTemplate.NamesSound found.template

/-- A step keeps the names consistent, and every type that is known. -/
theorem NamesSound.step (declares : job.dialect.DeclaresOnly)
    (bodies : ∀ resource events template, job.parseBody resource = (events, .ok template) →
      template.resource = resource ∧ template.NamesSound)
    (sound : w.NamesSound job.resource.name) (naming : Naming job w w') :
    w'.NamesSound job.resource.name ∧ w.symbols.Keeps w'.symbols := by
  have listed (consistent : w'.symbols.Consistent) (keeps : w.symbols.Keeps w'.symbols) (name : Text)
      (found : Macro Compiled) (member : (name, found) ∈ w.macros) :
      ListedAs job.resource.name w'.symbols name found := by
    have before := sound.macros name found member
    have typed := keeps name templateType before.typed
    exact { before with typed, known := (consistent.mem_iff name).mpr (by rw [typed]; rfl) }
  cases naming with
  | same symbols macros =>
    refine ⟨⟨?_, ?_, ?_⟩, ?_⟩
    · rw [symbols]
      exact sound.symbols
    · rw [symbols, macros]
      exact sound.macros
    · rw [macros]
      exact sound.below
    · rw [symbols]
      exact .refl _
  | statement coded macros =>
    obtain ⟨declarations, eq⟩ := declares _ _ _ _ coded
    obtain ⟨consistent, keeps⟩ := sound.symbols.declaredAll declarations
    rw [← eq] at consistent keeps
    refine ⟨⟨consistent, ?_, ?_⟩, keeps⟩
    · rw [macros]
      exact listed consistent keeps
    · rw [macros]
      exact sound.below
  | @defined found text events declared parsed macros =>
    have consistent := sound.symbols.declare declared
    have keeps := SymbolTable.Keeps.declare declared
    have typed := SymbolTable.declare_type declared
    obtain ⟨resource, below⟩ := bodies _ _ _ parsed
    refine ⟨⟨consistent, ?_, ?_⟩, keeps⟩
    · intro name other member
      rw [macros] at member
      rcases Dictionary.mem_insert member with own | earlier
      · obtain ⟨rfl, rfl⟩ := Prod.mk.inj own
        exact ⟨rfl, (consistent.mem_iff _).mpr (by rw [typed]; rfl), typed, by rw [resource]; rfl⟩
      · exact listed consistent keeps name other earlier
    · intro name other member
      rw [macros] at member
      rcases Dictionary.mem_insert member with own | earlier
      · obtain ⟨rfl, rfl⟩ := Prod.mk.inj own
        exact below
      · exact sound.below name other earlier

/-- All steps in a row do so. -/
theorem Runs.namesSound {agenda agenda' : List Duty} {requests : List Request}
    (declares : job.dialect.DeclaresOnly)
    (bodies : ∀ resource events template, job.parseBody resource = (events, .ok template) →
      template.resource = resource ∧ template.NamesSound)
    (run : Runs job w agenda requests w' agenda') (sound : w.NamesSound job.resource.name) :
    w'.NamesSound job.resource.name ∧ w.symbols.Keeps w'.symbols := by
  induction run with
  | done => exact ⟨sound, .refl _⟩
  | step advanced _ ih =>
    obtain ⟨sound', keeps⟩ := sound.step declares bodies (advance_naming advanced)
    obtain ⟨sound'', keeps'⟩ := ih sound'
    exact ⟨sound'', keeps.trans keeps'⟩

theorem namesSound_start (template : Text) : ({} : Walk Compiled).NamesSound template :=
  ⟨SymbolTable.consistent_empty, fun _ _ member => absurd member List.not_mem_nil,
    fun _ _ member => absurd member List.not_mem_nil⟩

end Walk

/-- Templates that are parsed have consistent names, however deep their macros are nested. -/
theorem Parser.namesSound {parser : Parser Compiled} (declares : parser.dialect.DeclaresOnly)
    (stream : Bool) (depth : Nat) (resource : Resource) (events : List Event)
    (template : ParsedTemplate Compiled)
    (parsed : parser.parseWithin stream depth resource = (events, .ok template)) :
    template.resource = resource ∧ template.NamesSound := by
  induction depth generalizing resource events template with
  | zero => simp [parseWithin] at parsed
  | succ depth ih =>
    obtain ⟨below, w, eq, walked, rfl⟩ := parseWithin_ok parsed
    obtain rfl := Nat.succ.inj eq
    have run := Walk.siblings_runs walked []
    obtain ⟨sound, _⟩ := run.namesSound declares ih (Walk.namesSound_start resource.name)
    exact ⟨rfl, .intro sound.symbols sound.macros sound.below⟩

/-- As long as a dialect only declares names, the names of every source are consistent: at each point of
the walk through it, be it a template or the body of a macro, and in the template that is made of it, with
all templates of macros below. From one point to a later one no name gets another type. A declaration
fails only where the name has another type, and then nothing changes. -/
theorem names_consistent {parser : Parser Compiled} (declares : parser.dialect.DeclaresOnly) (stream : Bool) :
    (∀ depth resource requests w agenda,
      Walk.Runs (parser.job stream depth resource) {} [.row none resource.source.nodes] requests w agenda →
        w.NamesSound resource.name ∧ ∀ more w' agenda',
          Walk.Runs (parser.job stream depth resource) w agenda more w' agenda' → w.symbols.Keeps w'.symbols) ∧
      (∀ resource events template, parser.parse stream resource = (events, .ok template) →
        template.resource = resource ∧ template.NamesSound) ∧
      ∀ (table : SymbolTable) d found, table.attempt d = .error found →
        table.types.get? d.name = some found ∧ found ≠ d.type ∧ table.declared d = table := by
  refine ⟨?_, ?_, ?_⟩
  · intro depth resource requests w agenda run
    have bodies := parser.namesSound declares stream depth
    obtain ⟨sound, _⟩ := run.namesSound declares bodies
      (Walk.namesSound_start resource.name)
    exact ⟨sound, fun more w' agenda' later => (later.namesSound declares bodies sound).2⟩
  · intro resource events template parsed
    exact parser.namesSound declares stream _ resource events template parsed
  · intro table d found refused
    obtain ⟨known, other⟩ := SymbolTable.attempt_error_iff.mp refused
    exact ⟨known, other, by rw [SymbolTable.declared, refused]⟩

/-- Parameters, a loop, a macro with parameters and another macro inside it. -/
theorem names_consistent_with_nested_macros :
    let parser : Parser Unit := ⟨.default, Program.dialect, ⟨fun _ => .ok ()⟩⟩
    let resource : Resource := { name := "t", source :=
      "<!-- var='a, b' --><ul foreach='c : a' macro='m(x)'><li macro='n' set='y = x'/></ul><i set='b = a'/>" }
    parser.dialect.DeclaresOnly ∧ ∃ events template, parser.parse false resource = (events, .ok template) ∧
      template.NamesSound ∧ template.macros.map Prod.fst = [("m" : Text)] ∧
      template.symbols = ⟨["a", "b"], ["Object", "Object"], ["a", "b", "m"],
        [("a", "Object"), ("b", "Object"), ("m", "Template")]⟩ := by
  intro parser resource
  have declares : parser.dialect.DeclaresOnly := Program.dialect_declaresOnly
  have symbols : (parser.parse false resource).2.toOption.map
      (fun template => (template.macros.map Prod.fst, template.symbols)) = some ([("m" : Text)],
        ⟨["a", "b"], ["Object", "Object"], ["a", "b", "m"],
          [("a", "Object"), ("b", "Object"), ("m", "Template")]⟩) := by decide +kernel
  refine ⟨declares, ?_⟩
  cases parsed : parser.parse false resource with
  | mk events result =>
    rw [parsed] at symbols
    cases result with
    | error e => simp [Except.toOption] at symbols
    | ok template =>
      obtain ⟨macros, table⟩ := Prod.mk.inj (Option.some.inj symbols)
      have sound := (names_consistent declares false).2.1 resource events template parsed
      exact ⟨events, template, rfl, sound.2, macros, table⟩

end MarkupTemplates
