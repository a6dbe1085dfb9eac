import MarkupTemplates.Proofs.ParsedTemplate.Inheritance

namespace MarkupTemplates

variable {Compiled : Type}

/-- Two templates are made of the same sources, and so are the macros at all depths. What they are called is left
open, and whether they are streams. -/
def ParsedTemplate.Alike (one other : ParsedTemplate Compiled) : Prop :=
  ∀ path, Option.Rel (fun a b => a.resource.source = b.resource.source ∧ a.code = b.code ∧ a.symbols = b.symbols)
    (one.at? path) (other.at? path)

/-- Two collections of macros have the same names, for macros that are alike. -/
def MacrosAlike (one other : Dictionary (Macro Compiled)) : Prop :=
  ∀ name, Option.Rel (fun a b => a.template.Alike b.template) (one.get? name) (other.get? name)

theorem MacrosAlike.insert {one other : Dictionary (Macro Compiled)} (alike : MacrosAlike one other) (name : Text)
    {found found' : Macro Compiled} (own : found.template.Alike found'.template) :
    MacrosAlike (one.insert name found) (other.insert name found') := by
  intro key
  rw [Dictionary.get?_insert, Dictionary.get?_insert]
  by_cases same : name = key
  · rw [if_pos same, if_pos same]
    exact .some own
  · rw [if_neg same, if_neg same]
    exact alike key

theorem ParsedTemplate.Alike.intro {one other : ParsedTemplate Compiled}
    (source : one.resource.source = other.resource.source) (code : one.code = other.code)
    (symbols : one.symbols = other.symbols) (macros : MacrosAlike one.macros other.macros) : one.Alike other := by
  intro path
  cases path with
  | nil => exact .some ⟨source, code, symbols⟩
  | cons name path =>
    rw [at?, at?]
    have below := macros name
    generalize Dictionary.get? one.macros name = found at below
    generalize Dictionary.get? other.macros name = found' at below
    cases below with
    | none => exact .none
    | some own => exact own path

/-- Where the one gives a result, the other gives one, too, and the two are related. -/
def Carries {ε ε' α β : Type} (rel : α → β → Prop) (x : Except ε α) (y : Except ε' β) : Prop :=
  ∀ a, x = .ok a → ∃ b, y = .ok b ∧ rel a b

section

variable {ε ε' α β γ δ : Type} {rel : α → β → Prop} {rel' : γ → δ → Prop}

theorem Carries.ok {a : α} {b : β} (related : rel a b) :
    Carries rel (.ok a : Except ε α) (.ok b : Except ε' β) :=
  fun _ eq => ⟨b, rfl, Except.ok.inj eq ▸ related⟩

theorem Carries.bind {x : Except ε α} {y : Except ε' β} {f : α → Except ε γ} {g : β → Except ε' δ}
    (first : Carries rel x y) (rest : ∀ a b, rel a b → Carries rel' (f a) (g b)) :
    Carries rel' (x >>= f) (y >>= g) := by
  intro c done
  obtain ⟨a, one, two⟩ := ok_of_bind done
  obtain ⟨b, eq, related⟩ := first a one
  rw [eq]
  exact rest a b related c two

end

namespace Walk

/-- Two walks that have come equally far through the same source. -/
structure Alike (w w' : Walk Compiled) : Prop where
  edits : w.edits = w'.edits
  symbols : w.symbols = w'.symbols
  macros : MacrosAlike w.macros w'.macros

/-- The other job is to parse the same source, and to do so by the same words. -/
structure Companion (job job' : Job Compiled) : Prop where
  names : job'.names = job.names
  dialect : job'.dialect = job.dialect
  source : job'.resource.source = job.resource.source

/-- What the one job can make of the body of a macro, the other can, too. -/
def Keeps (job job' : Job Compiled) (head : MacroHead) (body : MacroBody) : Prop :=
  ∀ events template compiled, job.parseBody (job.resource.extract head.name body.text) = (events, .ok template) →
    job.compiler.compile template = .ok compiled →
    ∃ events' template' compiled',
      job'.parseBody (job'.resource.extract head.name body.text) = (events', .ok template') ∧
      job'.compiler.compile template' = .ok compiled' ∧ template.Alike template'

variable {job job' : Job Compiled} {w w' : Walk Compiled}

theorem Alike.placed (alike : w.Alike w') (position length : Nat) (code : Text) :
    (w.place position length code).Alike (w'.place position length code) :=
  { alike with edits := congrArg (·.insert position (marker length code)) alike.edits }

theorem Alike.removed (alike : w.Alike w') (span : Span) : (w.remove span).Alike (w'.remove span) :=
  { alike with edits := congrArg (·.remove span) alike.edits }

theorem carries_statement (companion : Companion job job') (alike : w.Alike w') (directive : Directive) :
    Carries (fun a b => a.1 = b.1 ∧ a.2.Alike b.2) (w.statement job directive) (w'.statement job' directive) := by
  rw [statement, statement, companion.dialect, alike.symbols]
  cases job.dialect.statement directive w'.symbols with
  | error e => exact fun _ done => absurd done nofun
  | ok done => exact .ok ⟨rfl, alike.edits, rfl, alike.macros⟩

theorem carries_macroHead (w w' : Walk Compiled) (directive value : Text) (start : Nat) :
    Carries Eq (w.macroHead job directive value start) (w'.macroHead job' directive value start) := by
  intro head done
  exact ⟨head, by rw [macroHead, macroHead_ok done], rfl⟩

theorem carries_register (companion : Companion job job') (alike : w.Alike w') {head : MacroHead} {body : MacroBody}
    (keeps : Keeps job job' head body) (span : Span) :
    Carries (fun a b => a.1 = b.1 ∧ a.2.Alike b.2) (w.register job head body span)
      (w'.register job' head body span) := by
  rintro ⟨code, w1⟩ done
  obtain ⟨symbols, events, template, compiled, declared, parsed, made⟩ := register_inversion done
  obtain ⟨events', template', compiled', parsed', made', same⟩ := keeps events template compiled parsed made
  obtain ⟨w2, one, edits, symbols2, macros⟩ := register_of (w := w) span declared parsed made
  obtain ⟨rfl, rfl⟩ := Prod.mk.inj (Except.ok.inj (done.symm.trans one))
  obtain ⟨w2', other, edits', symbols2', macros'⟩ :=
    register_of (w := w') span (alike.symbols ▸ declared) parsed' made'
  refine ⟨(_, w2'), other, by rw [companion.dialect], ?_, ?_, ?_⟩
  · exact edits.trans (alike.edits.trans edits'.symm)
  · exact symbols2.trans symbols2'.symm
  · rw [macros, macros']
    exact alike.macros.insert head.name same

/-- The body is parsed when it is known what the macro is called. -/
theorem carries_macro (companion : Companion job job') (alike : w.Alike w') (directive value : Text) (start : Nat)
    {body : MacroHead → MacroBody} {span : Span} {place : Text × Walk Compiled → Walk Compiled}
    (keeps : ∀ head, MacroHead.read directive value = .ok head → Keeps job job' head (body head))
    (placed : ∀ code w w', w.Alike w' → (place (code, w)).Alike (place (code, w'))) :
    Carries Alike (w.macroHead job directive value start >>= fun head => w.register job head (body head) span >>=
        fun made => pure (place made))
      (w'.macroHead job' directive value start >>= fun head => w'.register job' head (body head) span >>=
        fun made => pure (place made)) := by
  intro w1 done
  obtain ⟨head, known, rest⟩ := ok_of_bind done
  obtain ⟨_, known', rfl⟩ := @carries_macroHead _ job job' w w' directive value start head known
  rw [known']
  have registered := carries_register companion alike (keeps head (macroHead_ok known)) span
  refine registered.bind (fun a b related => ?_) w1 rest
  obtain ⟨code, w2⟩ := a
  obtain ⟨code', w2'⟩ := b
  obtain ⟨rfl, related⟩ := related
  exact .ok (placed code w2 w2' related)

theorem carries_statementAttribute (companion : Companion job job') (alike : w.Alike w') (tag : Tag)
    (kind : DirectiveKind) (a : Attribute) :
    Carries Alike (w.statementAttribute job tag kind a) (w'.statementAttribute job' tag kind a) := by
  refine (carries_statement companion alike _).bind fun one other related => ?_
  obtain ⟨code, w1⟩ := one
  obtain ⟨code', w1'⟩ := other
  obtain ⟨rfl, related⟩ := related
  exact .ok ((related.placed _ _ _).removed _)

theorem carries_comment (companion : Companion job job') (alike : w.Alike w') (opened : Option OpenMacro)
    (span : Span) (keeps : ∀ found head, commentRole job.names job.resource.source opened span = .closesMacro found →
      MacroHead.read found.directive found.value = .ok head → Keeps job job' head
        (.ofRun job.resource.source ⟨found.comment.stop, span.start⟩ found.comment.start (job.names.name .var)
          head.parameters)) :
    Carries (fun a b => a.1 = b.1 ∧ a.2.Alike b.2) (w.comment job opened span) (w'.comment job' opened span) := by
  rw [comment_eq, comment_eq, companion.names, companion.source]
  cases role : commentRole job.names job.resource.source opened span with
  | text => exact .ok ⟨rfl, alike⟩
  | statement directive =>
    refine (carries_statement companion alike directive).bind fun one other related => ?_
    obtain ⟨code, w1⟩ := one
    obtain ⟨code', w1'⟩ := other
    obtain ⟨rfl, related⟩ := related
    exact .ok ⟨rfl, (related.placed _ _ _).removed _⟩
  | ending name =>
    simp only [companion.dialect]
    have counted : w.counted.Alike w'.counted := ⟨alike.edits, alike.symbols, alike.macros⟩
    exact .ok ⟨rfl, (counted.placed _ _ _).removed _⟩
  | opensMacro found =>
    refine .ok ⟨rfl, .removed ?_ _⟩
    cases opened <;> exact ⟨alike.edits, alike.symbols, alike.macros⟩
  | closesMacro found =>
    have ran : Carries Alike (w.runMacro job found span) (w'.runMacro job' found span) := by
      rw [runMacro, runMacro, companion.names, companion.source]
      exact carries_macro companion alike _ _ _ (fun head read => keeps found head role read)
        fun code w w' related => ((related.removed _).placed _ _ _).removed _
    intro next done
    obtain ⟨w2, one, rfl⟩ := ok_of_map done
    obtain ⟨w2', other, related⟩ := ran w2 one
    exact ⟨(none, w2'), congrArg (Except.map _) other, rfl, related⟩

/-- A step that the one walk takes can be taken by the other. -/
theorem carries_advance (companion : Companion job job') (alike : w.Alike w') {duty : Duty} {rest : List Duty}
    (keeps : ∀ head body segments, duty.Extracts job.names job.resource.source head body segments →
      Keeps job job' head body) :
    Carries (fun a b => a.1.Alike b.1 ∧ a.2 = b.2) (advance job w rest duty) (advance job' w' rest duty) := by
  match duty with
  | .row none [] => exact .ok ⟨alike, rfl⟩
  | .row (some opened) [] =>
    intro next done
    cases done
  | .row opened (.comment span :: nodes) =>
    rw [advance, advance]
    refine (carries_comment companion alike opened span fun found head role read => ?_).bind fun one other related => ?_
    · cases opened with
      | some opened => exact keeps _ _ _ (.run role read)
      | none =>
        have known := commentRole_ok job.names job.resource.source none span
        rw [role] at known
        cases known
    · obtain ⟨next, w1⟩ := one
      obtain ⟨next', w1'⟩ := other
      obtain ⟨rfl, related⟩ := related
      exact .ok ⟨related, rfl⟩
  | .row (some opened) (.element .. :: nodes) => exact .ok ⟨alike, rfl⟩
  | .row none (.element tag stop children :: nodes) =>
    have same : endings job' tag = endings job tag := by rw [endings, endings, companion.names, companion.dialect]
    rw [advance, advance, same, companion.names]
    cases declares : declarationOf? job.names tag with
    | none => exact .ok ⟨alike, rfl⟩
    | some declaration =>
      have made : Carries Alike (w.elementMacro job tag stop declaration)
          (w'.elementMacro job' tag stop declaration) := by
        rw [elementMacro, elementMacro, companion.names, companion.source]
        exact carries_macro companion alike _ _ _ (fun head read => keeps _ _ _ (.element declares read))
          fun code w w' related => (related.placed _ _ _).removed _
      exact made.bind fun one other related => .ok ⟨related, rfl⟩
  | .statement tag kind a =>
    exact (carries_statementAttribute companion alike tag kind a).bind fun one other related => .ok ⟨related, rfl⟩
  | .closing stop code => exact .ok ⟨alike.placed _ _ _, rfl⟩

/-- So can all steps in a row. -/
theorem Runs.carried {agenda agenda' : List Duty} {requests : List Request} {w1 : Walk Compiled}
    (companion : Companion job job') (run : Runs job w agenda requests w1 agenda') (alike : w.Alike w')
    (here : ∀ duty ∈ agenda, duty.From job.names job.resource.source.nodes ∧
      duty.Declared job.names job.resource.source)
    (keeps : ∀ head body, HoldsMacro job.names job.resource.source head body → Keeps job job' head body) :
    ∃ requests' w1', Runs job' w' agenda requests' w1' agenda' ∧ w1.Alike w1' := by
  induction run generalizing w' with
  | done => exact ⟨[], w', .done, alike⟩
  | @step w duty rest w1 agenda1 requests w2 agenda2 advanced _ ih =>
    have one : Runs job w (duty :: rest) _ w1 agenda1 := .step advanced .done
    have held : ∀ head body segments, duty.Extracts job.names job.resource.source head body segments →
        Keeps job job' head body := fun head body segments extracts =>
      keeps head body ⟨duty, segments, extracts, here duty List.mem_cons_self⟩
    obtain ⟨⟨w1', agenda1'⟩, advanced', related, same⟩ := carries_advance companion alike held _ advanced
    obtain rfl : agenda1 = agenda1' := same
    obtain ⟨requests', w2', run', related'⟩ := ih related fun next member =>
      ⟨advance_from advanced (fun next member => (here next member).1) next member,
        one.declared (fun next member => (here next member).2) next member⟩
    exact ⟨_, w2', .step advanced' run', related'⟩

end Walk

namespace Parser

/-- Compiling tells templates apart by what they are made of alone. -/
def Steady (parser : Parser Compiled) : Prop :=
  ∀ one other compiled, one.Alike other → parser.compiler.compile one = .ok compiled →
    ∃ compiled', parser.compiler.compile other = .ok compiled'

variable {parser : Parser Compiled}

/-- A source that can be parsed can be parsed under any name, as a stream or not, as long as macros may be nested
as deep as they are declared in it. The templates are alike. -/
theorem parsed_alike (steady : parser.Steady) (word : IsAttributeWord (parser.names.name .var))
    {stream stream' : Bool} {depth depth' : Nat} {resource resource' : Resource} (same : resource'.source = resource.source)
    (room : resource.source.declarations parser.names < depth') {events : List Event}
    {template : ParsedTemplate Compiled}
    (parsed : parser.parseWithin stream depth resource = (events, .ok template)) :
    ∃ events' template', parser.parseWithin stream' depth' resource' = (events', .ok template') ∧
      template.Alike template' := by
  induction depth' generalizing depth resource resource' events template with
  | zero => exact absurd room (Nat.not_lt_zero _)
  | succ depth' ih =>
    obtain ⟨depth, w, rfl, walked, rfl⟩ := parseWithin_ok parsed
    let job := parser.job stream depth resource
    let job' := parser.job stream' depth' resource'
    have companion : Walk.Companion job job' := ⟨rfl, rfl, same⟩
    have keeps (head : MacroHead) (body : MacroBody) (held : HoldsMacro parser.names resource.source head body) :
        Walk.Keeps job job' head body := by
      intro events template compiled parsed made
      have fewer := held.declarations_lt word
      obtain ⟨events', template', parsed', alike⟩ := @ih depth (resource.extract head.name body.text)
        (resource'.extract head.name body.text) rfl (Nat.lt_of_lt_of_le fewer (Nat.le_of_lt_succ room)) events template
        parsed
      obtain ⟨compiled', made'⟩ := steady template template' compiled alike made
      exact ⟨events', template', compiled', parsed', made', alike⟩
    have start : ({} : Walk Compiled).Alike {} := ⟨rfl, rfl, fun _ => .none⟩
    obtain ⟨requests', w', run, alike⟩ := (Walk.siblings_runs walked []).carried companion start (fun duty member => by
        rw [List.mem_singleton.mp member]
        exact ⟨⟨[], .roots, nofun⟩, nofun⟩) keeps
    have walked' : Walk.siblings job' none {} resource.source.nodes = .ok w' := by
      have all := run.dischargeAll
      rw [Walk.dischargeAll] at all
      obtain ⟨w1, one, rest⟩ := ok_of_bind all
      rwa [← Except.ok.inj rest]
    rw [parseWithin_succ, same, walked']
    exact ⟨_, _, rfl, .intro same.symm (by rw [alike.edits]) alike.symbols alike.macros⟩

end Parser

end MarkupTemplates
