import MarkupTemplates.Proofs.Dictionary
import MarkupTemplates.Proofs.ParsedTemplate.BodyTokens
import MarkupTemplates.Proofs.ParsedTemplate.Names

namespace MarkupTemplates

variable {Compiled : Type}

/-- A walk through the source comes to a macro with this head and this body. -/
def HoldsMacro (names : DirectiveNames) (source : Text) (head : MacroHead) (body : MacroBody) : Prop :=
  ∃ duty segments, Duty.Extracts names source duty head body segments ∧ duty.From names source.nodes ∧
    duty.Declared names source

/-- The macro comes from a place of the source: it is called as it is declared there, its template is what
was made of the body, and it was compiled from that. -/
def Macro.ComesFrom (job : Job Compiled) (name : Text) (found : Macro Compiled) : Prop :=
  ∃ head body events, HoldsMacro job.names job.resource.source head body ∧ name = head.name ∧
    name.isIdentifier = true ∧ job.parseBody (job.resource.extract name body.text) = (events, .ok found.template) ∧
    job.compiler.compile found.template = .ok found.compiled

theorem MacroHead.isIdentifier_name {directive value : Text} {head : MacroHead}
    (h : MacroHead.read directive value = .ok head) : head.name.isIdentifier = true := by
  unfold read at h
  split at h
  · exact absurd h nofun
  · split at h
    · exact absurd h nofun
    · split at h
      · next identifier =>
        obtain rfl := Except.ok.inj h
        exact identifier
      · exact absurd h nofun

theorem Duty.Extracts.isIdentifier_name {names : DirectiveNames} {source : Text} {duty : Duty}
    {head : MacroHead} {body : MacroBody} {segments : List Segment}
    (extracts : duty.Extracts names source head body segments) : head.name.isIdentifier = true := by
  cases extracts with
  | element _ read => exact MacroHead.isIdentifier_name read
  | run _ read => exact MacroHead.isIdentifier_name read

namespace Walk

variable {job : Job Compiled} {w w' : Walk Compiled}

/-- What a step does to the macros: it leaves them as they are, or adds one that the duty comes to. -/
inductive Gathers (job : Job Compiled) (duty : Duty) (w w' : Walk Compiled) : Prop
  | same : w'.macros = w.macros → Gathers job duty w w'
  | gathered {head : MacroHead} {body : MacroBody} {segments : List Segment} {events : List Event}
      (found : Macro Compiled) :
      duty.Extracts job.names job.resource.source head body segments →
      job.parseBody (job.resource.extract head.name body.text) = (events, .ok found.template) →
      job.compiler.compile found.template = .ok found.compiled →
      w'.macros = w.macros.insert head.name found → Gathers job duty w w'

theorem statement_macros {directive : Directive} {code : Text}
    (h : w.statement job directive = .ok (code, w')) : w'.macros = w.macros := by
  obtain ⟨_, _, rfl⟩ := statement_done h
  rfl

/-- A macro is registered only if its name is free, and its body can be parsed and compiled. -/
theorem register_inversion {head : MacroHead} {body : MacroBody} {span : Span} {done : Text × Walk Compiled}
    (h : w.register job head body span = .ok done) :
    ∃ symbols events template compiled, w.symbols.declare head.name templateType = .ok symbols ∧
      job.parseBody (job.resource.extract head.name body.text) = (events, .ok template) ∧
      job.compiler.compile template = .ok compiled := by
  obtain ⟨symbols, events, template, compiled, declared, parsed, made, _⟩ := register_done h
  exact ⟨symbols, events, template, compiled, declared, parsed, made⟩

/-- A macro is registered if its name is free, and its body can be parsed and compiled. -/
theorem register_of {head : MacroHead} {body : MacroBody} (span : Span) {symbols : SymbolTable} {events : List Event}
    {template : ParsedTemplate Compiled} {compiled : Compiled}
    (declared : w.symbols.declare head.name templateType = .ok symbols)
    (parsed : job.parseBody (job.resource.extract head.name body.text) = (events, .ok template))
    (made : job.compiler.compile template = .ok compiled) :
    ∃ w1, w.register job head body span = .ok (job.dialect.binding head.name, w1) ∧ w1.edits = w.edits ∧
      w1.symbols = symbols ∧ w1.macros = w.macros.insert head.name
        ⟨head.name, head.parameters, body.declaration, span, template, compiled⟩ := by
  unfold register
  simp only [declared, parsed, made]
  exact ⟨_, rfl, rfl, rfl, rfl⟩

theorem register_macros {head : MacroHead} {body : MacroBody} {span : Span} {code : Text}
    (h : w.register job head body span = .ok (code, w')) :
    ∃ found events, job.parseBody (job.resource.extract head.name body.text) = (events, .ok found.template) ∧
      job.compiler.compile found.template = .ok found.compiled ∧ w'.macros = w.macros.insert head.name found := by
  obtain ⟨symbols, events, template, compiled, _, parsed, made, _, rfl⟩ := register_done h
  exact ⟨⟨head.name, head.parameters, body.declaration, span, template, compiled⟩, events, parsed, made, rfl⟩

theorem comment_gathers {opened next : Option OpenMacro} {span : Span} {nodes : List Node}
    (h : w.comment job opened span = .ok (next, w')) : Gathers job (.row opened (.comment span :: nodes)) w w' := by
  have own := comment_ok h
  cases role : commentRole job.names job.resource.source opened span with
  | text =>
    rw [role] at own
    obtain ⟨_, rfl⟩ := own
    exact .same rfl
  | statement directive =>
    rw [role] at own
    obtain ⟨_, code, w2, coded, rfl⟩ := own
    have kept := statement_macros coded
    exact .same kept
  | ending name =>
    rw [role] at own
    obtain ⟨_, rfl⟩ := own
    exact .same rfl
  | opensMacro found =>
    rw [role] at own
    obtain ⟨_, rfl⟩ := own
    cases opened <;> exact .same rfl
  | closesMacro found =>
    rw [role] at own
    obtain ⟨head, read, ran⟩ := ok_of_bind own.2
    obtain ⟨⟨code, w2⟩, registered, placed⟩ := ok_of_bind ran
    obtain rfl := Except.ok.inj placed
    obtain ⟨found', events, parsed, made, macros⟩ := register_macros registered
    have known := commentRole_ok job.names job.resource.source opened span
    rw [role] at known
    subst known
    exact .gathered found' (.run role (macroHead_ok read)) parsed made macros

theorem elementMacro_gathers {tag : Tag} {stop : Nat} {children nodes : List Node} {declaration : Attribute}
    (declares : declarationOf? job.names tag = some declaration)
    (h : w.elementMacro job tag stop declaration = .ok w') :
    Gathers job (.row none (.element tag stop children :: nodes)) w w' := by
  obtain ⟨head, read, h⟩ := ok_of_bind h
  obtain ⟨⟨code, w1⟩, registered, placed⟩ := ok_of_bind h
  obtain rfl := Except.ok.inj placed
  obtain ⟨found, events, parsed, made, macros⟩ := register_macros registered
  exact .gathered found (.element declares (macroHead_ok read)) parsed made macros

theorem advance_gathers {duty : Duty} {rest agenda : List Duty}
    (h : advance job w rest duty = .ok (w', agenda)) : Gathers job duty w w' := by
  cases advance_advances h with
  | ended | passed | entered _ | closing => exact .same rfl
  | comment commented => exact comment_gathers commented
  | extracted declares made => exact elementMacro_gathers declares made
  | statement coded =>
    have kept := statement_macros coded
    exact .same kept

/-- All macros come from the source, if those did that were known before. -/
theorem Runs.comesFrom {agenda agenda' : List Duty} {requests : List Request}
    (run : Runs job w agenda requests w' agenda')
    (here : ∀ duty ∈ agenda, duty.From job.names job.resource.source.nodes ∧
      duty.Declared job.names job.resource.source)
    (before : ∀ name found, (name, found) ∈ w.macros → found.ComesFrom job name) :
    ∀ name found, (name, found) ∈ w'.macros → found.ComesFrom job name := by
  induction run with
  | done => exact before
  | @step w duty rest w1 agenda1 requests w2 agenda2 advanced _ ih =>
    have one : Runs job w (duty :: rest) _ w1 agenda1 := .step advanced .done
    refine ih (fun next member => ⟨advance_from advanced (fun next member => (here next member).1) next member,
      one.declared (fun next member => (here next member).2) next member⟩) ?_
    cases advance_gathers advanced with
    | same macros =>
      rw [macros]
      exact before
    | gathered found extracts parsed made macros =>
      intro name other member
      rw [macros] at member
      rcases Dictionary.mem_insert member with own | earlier
      · obtain ⟨rfl, rfl⟩ := Prod.mk.inj own
        exact ⟨_, _, _, ⟨duty, _, extracts, here duty List.mem_cons_self⟩, rfl, extracts.isIdentifier_name,
          parsed, made⟩
      · exact before name other earlier

/-- Macros are kept in the order of their names. -/
theorem Runs.ordered {agenda agenda' : List Duty} {requests : List Request}
    (run : Runs job w agenda requests w' agenda') (before : Dictionary.Ordered w.macros) :
    Dictionary.Ordered w'.macros := by
  induction run with
  | done => exact before
  | step advanced _ ih =>
    refine ih ?_
    cases advance_gathers advanced with
    | same macros =>
      rw [macros]
      exact before
    | gathered found _ _ _ macros =>
      rw [macros]
      exact before.insert _ _

end Walk

namespace Parser

variable {parser : Parser Compiled} {stream : Bool} {depth : Nat} {resource : Resource} {events : List Event}
  {template : ParsedTemplate Compiled}

/-- Every macro of a template comes from its source. -/
theorem comesFrom (parsed : parser.parseWithin stream (depth + 1) resource = (events, .ok template)) :
    ∀ name found, (name, found) ∈ template.macros → found.ComesFrom (parser.job stream depth resource) name := by
  obtain ⟨below, w, eq, walked, rfl⟩ := parseWithin_ok parsed
  obtain rfl := Nat.succ.inj eq
  refine (Walk.siblings_runs walked []).comesFrom (fun duty member => ?_) fun name found member =>
    absurd member List.not_mem_nil
  rw [List.mem_singleton.mp member]
  exact ⟨⟨[], .roots, nofun⟩, nofun⟩

theorem ordered_macros (parsed : parser.parseWithin stream depth resource = (events, .ok template)) :
    Dictionary.Ordered template.macros := by
  obtain ⟨below, w, rfl, walked, rfl⟩ := parseWithin_ok parsed
  exact (Walk.siblings_runs walked []).ordered List.Pairwise.nil

end Parser

/-- The template that is reached by the names of macros, from the outside in. -/
def ParsedTemplate.at? : ParsedTemplate Compiled → List Text → Option (ParsedTemplate Compiled)
  | t, [] => some t
  | t, name :: path => (Dictionary.get? t.macros name).bind fun found => found.template.at? path

/-- The name of a macro's source, below all the templates that it is nested in. -/
def pathName (template : Text) (path : List Text) : Text := path.foldl macroPath template

/-- What the body of a macro takes over from the source that the macro stands in is true of the sources of
all templates below. Each of them is parsed by itself. -/
theorem Parser.parsed_at {parser : Parser Compiled} {stream : Bool} {holds : Text → Prop}
    (inherits : ∀ source head body, HoldsMacro parser.names source head body → holds source → holds body.text)
    {depth : Nat} {resource : Resource} {events : List Event} {template found : ParsedTemplate Compiled}
    {path : List Text} (parsed : parser.parseWithin stream depth resource = (events, .ok template))
    (here : holds resource.source) (reached : template.at? path = some found) :
    ∃ below events, parser.parseWithin stream below found.resource = (events, .ok found) ∧
      found.resource.name = pathName resource.name path ∧ holds found.resource.source ∧
      ∀ name ∈ path, name.isIdentifier = true := by
  induction path generalizing depth resource events template with
  | nil =>
    obtain rfl := Option.some.inj reached
    obtain ⟨_, w, rfl, _, eq⟩ := parseWithin_ok parsed
    have own : template.resource = resource := by rw [eq]
    exact ⟨_, events, by rw [own]; exact parsed, by rw [own]; rfl, by rw [own]; exact here, nofun⟩
  | cons name path ih =>
    obtain ⟨own, known, reached⟩ := Option.bind_eq_some_iff.mp reached
    obtain ⟨depth, _, rfl, _, _⟩ := parseWithin_ok parsed
    obtain ⟨head, body, _, held, _, identifier, made, _⟩ :=
      Parser.comesFrom parsed name own (Dictionary.mem_of_get? known)
    obtain ⟨below, events, one, named, there, identifiers⟩ := ih made (inherits _ head body held here) reached
    exact ⟨below, events, one, named, there, List.forall_mem_cons.mpr ⟨identifier, identifiers⟩⟩

end MarkupTemplates
