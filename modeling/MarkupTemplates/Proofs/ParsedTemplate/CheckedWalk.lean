import MarkupTemplates.Proofs.Edit.CheckedApplication
import MarkupTemplates.Proofs.ParsedTemplate.Arising
import MarkupTemplates.Proofs.ParsedTemplate.CheckedPieces
import MarkupTemplates.Proofs.ParsedTemplate.Directives
import MarkupTemplates.Proofs.ParsedTemplate.Inheritance

namespace MarkupTemplates

/-- A step of a walk that comes to nothing where it looks at a position that is not in the source, and that can
fail besides. -/
abbrev Checked (α : Type) := ExceptT ParseFailure Option α

/-- What a step comes to that looks at no position. -/
def Checked.of {α : Type} (x : Except ParseFailure α) : Checked α := ExceptT.mk (some x)

/-- Steps in a row look at no position that is not there if none of them does. -/
theorem Checked.of_bind {α β : Type} {x : Except ParseFailure α} {f : α → Except ParseFailure β}
    {g : α → Checked β} (agree : ∀ a, x = .ok a → g a = .of (f a)) : (Checked.of x >>= g) = .of (x >>= f) := by
  cases x with
  | error failure => rfl
  | ok a => exact agree a rfl

/-- A position that is there is no obstacle. -/
theorem Checked.some_bind {α β : Type} (a : α) (g : α → Checked β) : ((liftM (some a) : Checked α) >>= g) = g a := rfl

namespace Walk

variable {Compiled : Type}

def checkedFail {α : Type} (job : Job Compiled) (w : Walk Compiled) (fault : ParseFault) (offset : Nat) :
    Checked α := do
  let error ← ParseError.checkedLocate fault job.resource offset
  throw ⟨error, w.events⟩

/-- Puts code in the place of a span. -/
def checkedPlace (w : Walk Compiled) (position : Nat) (span : Span) (code : Text) : Checked (Walk Compiled) := do
  return w.place position (← checkedMinus span.stop span.start) code

def checkedStatement (job : Job Compiled) (w : Walk Compiled) (directive : Directive) :
    Checked (Text × Walk Compiled) :=
  match job.dialect.statement directive w.symbols with
  | .ok (code, symbols) => return (code, { w.counted with symbols })
  | .error e =>
    w.checkedFail job (.invalidDirective directive.name directive.value e.message)
      (e.offset.getD directive.valueStart)

/-- The body of the macro is parsed by `parseBody`, which may come to nothing itself. -/
def checkedRegister (job : Job Compiled) (parseBody : Resource → Option (Parsed Compiled)) (w : Walk Compiled)
    (head : MacroHead) (body : MacroBody) (span : Span) : Checked (Text × Walk Compiled) :=
  match w.symbols.declare head.name templateType with
  | .error found => w.checkedFail job (.duplicateMacro head.name found templateType) body.declaration
  | .ok symbols => do
    let (events, parsed) ← parseBody (job.resource.extract head.name body.text)
    let w := { w with events := w.events ++ events }
    match parsed with
    | .error e => w.checkedFail job e.fault (← body.checkedOffset e.offset)
    | .ok template =>
      match job.compiler.compile template with
      | .error e => w.checkedFail job (.invalidTemplate head.name e.message) body.declaration
      | .ok compiled =>
        let found : Macro Compiled :=
          { name := head.name, parameters := head.parameters, start := body.declaration
            body := span, template, compiled }
        let w := w.log (.extracted job.resource.name head.name head.parameters)
        return (job.dialect.binding head.name,
          { w.counted with symbols, macros := w.macros.insert head.name found })

def checkedMacroHead (job : Job Compiled) (w : Walk Compiled) (directive value : Text) (start : Nat) :
    Checked MacroHead := do
  match ← MacroHead.checkedRead directive value with
  | .ok head => return head
  | .error fault => w.checkedFail job fault start

def checkedElementMacro (job : Job Compiled) (parseBody : Resource → Option (Parsed Compiled)) (w : Walk Compiled)
    (tag : Tag) (stop : Nat) (declaration : Attribute) : Checked (Walk Compiled) := do
  let span : Span := ⟨tag.span.start, stop⟩
  let head ← w.checkedMacroHead job declaration.name (declaration.value.getD []) declaration.span.start
  let body ← MacroBody.checkedOfElement job.resource.source tag stop declaration (job.names.name .var)
    head.parameters
  let (code, w) ← w.checkedRegister job parseBody head body span
  return (← w.checkedPlace span.start span code).remove span

def checkedRunMacro (job : Job Compiled) (parseBody : Resource → Option (Parsed Compiled)) (w : Walk Compiled)
    (opened : OpenMacro) (closing : Span) : Checked (Walk Compiled) := do
  let start := opened.comment.start
  let run : Span := ⟨opened.comment.stop, closing.start⟩
  let head ← w.checkedMacroHead job opened.directive opened.value start
  let body ← MacroBody.checkedOfRun job.resource.source run start (job.names.name .var) head.parameters
  let (code, w) ← w.checkedRegister job parseBody head body run
  return (← (w.remove run).checkedPlace start ⟨start, closing.stop⟩ code).remove closing

def checkedComment (job : Job Compiled) (parseBody : Resource → Option (Parsed Compiled)) (w : Walk Compiled)
    (opened : Option OpenMacro) (span : Span) : Checked (Option OpenMacro × Walk Compiled) := do
  match ← checkedRole job.names job.resource.source opened span with
  | .text => return (opened, w)
  | .statement directive =>
    let (code, w) ← w.checkedStatement job directive
    return (none, (← w.checkedPlace span.start span code).remove span)
  | .ending name => return (none, (← w.counted.checkedPlace span.stop span (job.dialect.ending name)).remove span)
  | .opensMacro found => return (some found, (gaveWay job w opened found).remove span)
  | .closesMacro found => return (none, ← w.checkedRunMacro job parseBody found span)

def checkedStatementAttribute (job : Job Compiled) (w : Walk Compiled) (tag : Tag) (kind : DirectiveKind)
    (a : Attribute) : Checked (Walk Compiled) := do
  let (code, w) ← w.checkedStatement job (a.statement kind)
  return (← w.checkedPlace tag.span.start a.reach code).remove a.reach

def checkedStatementAttributes (job : Job Compiled) (tag : Tag) :
    List (DirectiveKind × Attribute) → Walk Compiled → Checked (Walk Compiled)
  | [], w => return w
  | (kind, a) :: rest, w => do checkedStatementAttributes job tag rest (← w.checkedStatementAttribute job tag kind a)

mutual

def checkedNode (job : Job Compiled) (parseBody : Resource → Option (Parsed Compiled)) (opened : Option OpenMacro)
    (w : Walk Compiled) : Node → Checked (Option OpenMacro × Walk Compiled)
  | .comment span => w.checkedComment job parseBody opened span
  | .element tag stop children =>
    if opened.isSome then return (opened, w)
    else match declarationOf? job.names tag with
      | some declaration => do return (none, ← w.checkedElementMacro job parseBody tag stop declaration)
      | none => do
        let w ← checkedStatementAttributes job tag (statementsOf job.names tag) w
        let w ← checkedSiblings job parseBody none w children
        return (none, (endings job tag).foldl (fun w code => w.place stop 0 code) w)

/-- Nodes in a row, with every position looked up that a step measures from or cuts at. -/
def checkedSiblings (job : Job Compiled) (parseBody : Resource → Option (Parsed Compiled))
    (opened : Option OpenMacro) (w : Walk Compiled) : List Node → Checked (Walk Compiled)
  | [] =>
    match opened with
    | some opened => w.checkedFail job (.unclosedMacro opened.value) opened.comment.start
    | none => return w
  | first :: rest => do
    let (opened, w) ← checkedNode job parseBody opened w first
    checkedSiblings job parseBody opened w rest

end

variable {job : Job Compiled} {parseBody : Resource → Option (Parsed Compiled)} {w : Walk Compiled}

theorem checkedFail_eq {α : Type} (fault : ParseFault) (offset : Nat) :
    (w.checkedFail job fault offset : Checked α) = .of (w.fail job fault offset) := by
  rw [checkedFail, ParseError.checkedLocate_eq]
  rfl

theorem checkedPlace_eq (position : Nat) (span : Span) (code : Text) (forward : span.start ≤ span.stop) :
    w.checkedPlace position span code = .of (.ok (w.place position span.length code)) := by
  rw [checkedPlace, checkedMinus_eq forward]
  rfl

theorem checkedStatement_eq (directive : Directive) :
    w.checkedStatement job directive = .of (w.statement job directive) := by
  rw [checkedStatement, statement]
  cases job.dialect.statement directive w.symbols with
  | error e => exact checkedFail_eq ..
  | ok made => rfl

theorem checkedMacroHead_eq (directive value : Text) (start : Nat) :
    w.checkedMacroHead job directive value start = .of (w.macroHead job directive value start) := by
  rw [checkedMacroHead, MacroHead.checkedRead_eq, Checked.some_bind, macroHead]
  cases MacroHead.read directive value with
  | error fault => exact checkedFail_eq ..
  | ok head => rfl

theorem checkedRegister_eq {head : MacroHead} {body : MacroBody} (span : Span)
    (agrees : parseBody (job.resource.extract head.name body.text) =
      some (job.parseBody (job.resource.extract head.name body.text))) :
    w.checkedRegister job parseBody head body span = .of (w.register job head body span) := by
  rw [checkedRegister, register]
  cases w.symbols.declare head.name templateType with
  | error found => exact checkedFail_eq ..
  | ok symbols =>
    simp only [agrees, Checked.some_bind]
    cases (job.parseBody (job.resource.extract head.name body.text)).2 with
    | error e =>
      simp only [MacroBody.checkedOffset_eq, Checked.some_bind]
      exact checkedFail_eq ..
    | ok template =>
      simp only
      cases job.compiler.compile template with
      | error e => exact checkedFail_eq ..
      | ok compiled => rfl

theorem checkedElementMacro_eq {tag : Tag} {stop : Nat} {declaration : Attribute} (forward : tag.span.start ≤ stop)
    (known : ∀ head, MacroHead.read declaration.name (declaration.value.getD []) = .ok head →
      let parameters := head.parameters
      let body := MacroBody.ofElement job.resource.source tag stop declaration (job.names.name .var) parameters
      (∀ span, .copied span ∈ MacroBody.elementSegments tag stop declaration (job.names.name .var) parameters →
        span.Within job.resource.source) ∧
      parseBody (job.resource.extract head.name body.text) =
        some (job.parseBody (job.resource.extract head.name body.text))) :
    w.checkedElementMacro job parseBody tag stop declaration = .of (w.elementMacro job tag stop declaration) := by
  rw [checkedElementMacro, elementMacro, checkedMacroHead_eq]
  refine Checked.of_bind fun head read => ?_
  obtain ⟨within, agrees⟩ := known head (macroHead_ok read)
  rw [MacroBody.checkedOfElement_eq forward within, Checked.some_bind, checkedRegister_eq _ agrees]
  refine Checked.of_bind fun made registered => ?_
  obtain ⟨code, w1⟩ := made
  simp only [checkedPlace_eq _ ⟨tag.span.start, stop⟩ _ forward]
  rfl

theorem checkedRunMacro_eq {opened : OpenMacro} {closing : Span} (opening : opened.comment.Within job.resource.source)
    (forward : closing.start ≤ closing.stop)
    (known : ∀ head, MacroHead.read opened.directive opened.value = .ok head →
      let run : Span := ⟨opened.comment.stop, closing.start⟩
      let body := MacroBody.ofRun job.resource.source run opened.comment.start (job.names.name .var) head.parameters
      run.Within job.resource.source ∧ parseBody (job.resource.extract head.name body.text) =
        some (job.parseBody (job.resource.extract head.name body.text))) :
    w.checkedRunMacro job parseBody opened closing = .of (w.runMacro job opened closing) := by
  rw [checkedRunMacro, runMacro, checkedMacroHead_eq]
  refine Checked.of_bind fun head read => ?_
  obtain ⟨within, agrees⟩ := known head (macroHead_ok read)
  rw [MacroBody.checkedOfRun_eq within, Checked.some_bind, checkedRegister_eq _ agrees]
  refine Checked.of_bind fun made registered => ?_
  obtain ⟨code, w1⟩ := made
  have whole : opened.comment.start ≤ closing.stop :=
    Nat.le_trans opening.forward (Nat.le_trans within.forward forward)
  simp only [checkedPlace_eq _ ⟨opened.comment.start, closing.stop⟩ _ whole]
  rfl

theorem checkedStatementAttributes_eq {tag : Tag} {statements : List (DirectiveKind × Attribute)}
    (forward : ∀ statement ∈ statements, statement.2.reach.start ≤ statement.2.reach.stop) :
    checkedStatementAttributes job tag statements w = .of (statementAttributes job tag statements w) := by
  induction statements generalizing w with
  | nil => rfl
  | cons statement rest ih =>
    obtain ⟨kind, a⟩ := statement
    have own : w.checkedStatementAttribute job tag kind a = .of (w.statementAttribute job tag kind a) := by
      rw [checkedStatementAttribute, checkedStatement_eq]
      refine Checked.of_bind fun made _ => ?_
      simp only [checkedPlace_eq _ a.reach _ (forward _ List.mem_cons_self)]
      rfl
    rw [checkedStatementAttributes, statementAttributes, own]
    exact Checked.of_bind fun _ _ => ih fun next member => forward next (List.mem_cons_of_mem _ member)

/-- A walk leaves changes that can be made. -/
theorem checkedApply_edits (walked : siblings job none {} job.resource.source.nodes = .ok w) :
    w.edits.checkedApply job.resource.source = some (w.edits.apply job.resource.source) := by
  obtain ⟨made, _, edits, rewrites, _⟩ := ((placed_nodes job.resource.source).covers (Text.isBoundary_byteSize _)).1
    0 _ _ walked (Nat.le_refl _) (Text.isBoundary_zero _)
  have all : w.edits = made := edits
  rw [all]
  exact rewrites.onBoundaries.checkedApply

variable (agrees : ∀ head body, HoldsMacro job.names job.resource.source head body →
  parseBody (job.resource.extract head.name body.text) =
    some (job.parseBody (job.resource.extract head.name body.text)))

include agrees

theorem checkedComment_eq {opened : Option OpenMacro} {span : Span} {rest : List Node}
    (arises : (Duty.row opened (.comment span :: rest)).Arises job.names job.resource.source) :
    w.checkedComment job parseBody opened span = .of (w.comment job opened span) := by
  obtain ⟨_, _, placed⟩ := arises.placed
  have within : span.Within job.resource.source := by
    cases placed with
    | comment _ atStart forward atStop _ => exact ⟨atStart, atStop, forward⟩
  rw [checkedComment, checkedRole_eq opened within, Checked.some_bind, comment_eq]
  cases role : commentRole job.names job.resource.source opened span with
  | statement directive =>
    simp only [checkedStatement_eq]
    refine Checked.of_bind fun made _ => ?_
    simp only [checkedPlace_eq _ span _ within.forward]
    rfl
  | ending name =>
    simp only [checkedPlace_eq _ span _ within.forward]
    rfl
  | closesMacro found =>
    have known := commentRole_ok job.names job.resource.source opened span
    rw [role] at known
    subst known
    have own : w.checkedRunMacro job parseBody found span = .of (w.runMacro job found span) := by
      refine checkedRunMacro_eq arises.opened_within within.forward fun head read => ?_
      have extracts : Duty.Extracts job.names job.resource.source (.row (some found) (.comment span :: rest)) head _ _ :=
        .run role read
      exact ⟨extracts.within arises.1 (by simp [MacroBody.runSegments]), agrees _ _ (arises.holdsMacro extracts)⟩
    simp only [own]
    cases w.runMacro job found span with
    | error failure => rfl
    | ok w1 => rfl
  | _ => rfl

theorem checkedSiblings_eq {opened : Option OpenMacro} {nodes : List Node}
    (arises : (Duty.row opened nodes).Arises job.names job.resource.source) :
    checkedSiblings job parseBody opened w nodes = .of (siblings job opened w nodes) := by
  induction opened, nodes, arises using Duty.Arises.row_induction generalizing w with
  | nil opened arises =>
    unfold checkedSiblings siblings
    cases opened with
    | none => rfl
    | some opened => exact checkedFail_eq ..
  | comment opened span rest arises ih =>
    rw [checkedSiblings, siblings, checkedNode, node, checkedComment_eq agrees arises]
    refine Checked.of_bind fun next commented => ?_
    obtain ⟨next, w1⟩ := next
    rw [comment_opens commented]
    exact ih
  | element opened tag stop children rest arises ihChildren ih =>
    obtain ⟨_, _, placed⟩ := arises.placed
    have own : checkedNode job parseBody opened w (.element tag stop children) =
        .of (node job opened w (.element tag stop children)) := by
      rw [checkedNode, node]
      cases opened with
      | some opened => rfl
      | none =>
        cases placed with
        | element _ _ attributes _ content _ _ =>
          simp only [Option.isSome_none, Bool.false_eq_true, if_false]
          cases declared : declarationOf? job.names tag with
          | some declaration =>
            simp only
            rw [checkedElementMacro_eq (Nat.le_trans attributes.le content.le) fun head read => ?_]
            · exact Checked.of_bind fun _ _ => rfl
            · have extracts : Duty.Extracts job.names job.resource.source
                  (.row none (.element tag stop children :: rest)) head _ _ := .element declared read
              exact ⟨fun _ => extracts.within arises.1, agrees _ _ (arises.holdsMacro extracts)⟩
          | none =>
            simp only
            rw [checkedStatementAttributes_eq fun statement member => ?_]
            · refine Checked.of_bind fun w1 _ => ?_
              rw [ihChildren]
              exact Checked.of_bind fun _ _ => rfl
            · obtain ⟨before, inRow, _⟩ := arises.1
              have room := attribute_span inRow (List.mem_append_right _ List.mem_cons_self)
                (mem_attributes_of_statement member)
              exact Nat.le_trans (Nat.sub_le ..) (Nat.le_of_lt room)
    rw [checkedSiblings, siblings, own]
    refine Checked.of_bind fun next walked => ?_
    obtain ⟨next, w1⟩ := next
    obtain rfl := node_opens walked
    exact ih

end Walk

end MarkupTemplates
