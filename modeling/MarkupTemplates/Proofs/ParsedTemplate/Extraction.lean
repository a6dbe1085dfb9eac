import MarkupTemplates.Proofs.Markup.Rows
import MarkupTemplates.Proofs.ParsedTemplate.Agenda
import MarkupTemplates.Proofs.ParsedTemplate.Segments

namespace MarkupTemplates

/-- The duty has to do with a part of the tree. A macro comment that is open stands earlier in the row. -/
def Duty.From (names : DirectiveNames) (roots : List Node) : Duty → Prop
  | row opened nodes => ∃ before, Siblings roots (before ++ nodes) ∧
    ∀ found, opened = some found → .comment found.comment ∈ before
  | statement tag kind a => ∃ row stop children, Siblings roots row ∧ .element tag stop children ∈ row ∧
    (kind, a) ∈ Walk.statementsOf names tag
  | closing .. => True

/-- Taking up the duty, a walk comes to a macro: its head, its body and what the body is made up of. -/
inductive Duty.Extracts (names : DirectiveNames) (source : Text) :
    Duty → MacroHead → MacroBody → List Segment → Prop
  | element {tag : Tag} {stop : Nat} {children nodes : List Node} {declaration : Attribute}
      {head : MacroHead} :
      Walk.declarationOf? names tag = some declaration →
      MacroHead.read declaration.name (declaration.value.getD []) = .ok head →
      Duty.Extracts names source (.row none (.element tag stop children :: nodes)) head
        (.ofElement source tag stop declaration (names.name .var) head.parameters)
        (MacroBody.elementSegments tag stop declaration (names.name .var) head.parameters)
  | run {opened found : OpenMacro} {span : Span} {nodes : List Node} {head : MacroHead} :
      commentRole names source (some opened) span = .closesMacro found →
      MacroHead.read found.directive found.value = .ok head →
      Duty.Extracts names source (.row (some opened) (.comment span :: nodes)) head
        (.ofRun source ⟨found.comment.stop, span.start⟩ found.comment.start (names.name .var) head.parameters)
        (MacroBody.runSegments ⟨found.comment.stop, span.start⟩ (names.name .var) head.parameters)

variable {names : DirectiveNames} {source : Text} {duty : Duty} {head : MacroHead} {body : MacroBody}
  {segments : List Segment}

theorem Duty.Extracts.madeUp (extracts : duty.Extracts names source head body segments) :
    body.MadeUp source segments := by
  cases extracts with
  | element => exact MacroBody.ofElement_madeUp ..
  | run => exact MacroBody.ofRun_madeUp ..

/-- What goes into the body of a macro stands in the source as it is. -/
theorem Duty.Extracts.within (extracts : duty.Extracts names source head body segments)
    (here : duty.From names source.nodes) {span : Span} (member : .copied span ∈ segments) :
    span.Within source := by
  cases extracts with
  | @element tag stop children nodes declaration head declared _ =>
    obtain ⟨before, siblings, _⟩ := here
    obtain ⟨_, _, row⟩ := (placed_nodes source).siblings siblings
    obtain ⟨_, _, _, _, own⟩ := row.of_mem (List.mem_append_right _ List.mem_cons_self)
    cases own with
    | element _ atStart attributes _ content atStop _ =>
      obtain ⟨lower, atBlank, atEnd, upper, _⟩ := attributes.of_mem (List.mem_of_find?_eq_some declared)
      have inside := content.le
      have head_stop : max (declaration.span.start - 1) tag.span.start = declaration.span.start - 1 := by omega
      simp only [MacroBody.elementSegments, List.mem_cons, Segment.copied.injEq, reduceCtorEq, false_or,
        List.not_mem_nil, or_false] at member
      rcases member with rfl | rfl
      · exact ⟨atStart, by rw [head_stop]; exact atBlank, by simp only; omega⟩
      · exact ⟨atEnd, atStop, Nat.le_trans upper inside⟩
  | @run opened found span' nodes head closes _ =>
    obtain ⟨before, siblings, earlier⟩ := here
    have known := commentRole_ok names source (some opened) span'
    rw [closes] at known
    obtain ⟨_, _, row⟩ := (placed_nodes source).siblings siblings
    obtain ⟨mid, first, second⟩ := row.split
    obtain ⟨_, _, _, upper, opening⟩ := first.of_mem (earlier found known)
    simp only [MacroBody.runSegments, List.mem_cons, Segment.copied.injEq, reduceCtorEq, false_or,
      List.not_mem_nil, or_false] at member
    subst member
    cases opening with
    | comment _ _ _ atStart rest =>
      cases second with
      | comment lower atStop _ _ _ =>
        have := rest.le
        exact ⟨atStart, atStop, by simp only; omega⟩

theorem Duty.From.later {roots : List Node} {opened : Option OpenMacro} {first : Node} {nodes : List Node}
    (here : (Duty.row opened (first :: nodes)).From names roots) : (Duty.row opened nodes).From names roots := by
  obtain ⟨before, siblings, earlier⟩ := here
  refine ⟨before ++ [first], by rwa [List.append_assoc], fun found eq => ?_⟩
  exact List.mem_append_left _ (earlier found eq)

/-- The macro that is open behind a comment was opened by that comment, or was open before it. -/
theorem Duty.From.comment {roots : List Node} {opened : Option OpenMacro} {span : Span} {nodes : List Node}
    (here : (Duty.row opened (.comment span :: nodes)).From names roots) :
    (Duty.row ((commentRole names source opened span).opens? opened) nodes).From names roots := by
  obtain ⟨before, siblings, earlier⟩ := here
  refine ⟨before ++ [.comment span], by rwa [List.append_assoc], fun found eq => ?_⟩
  have known := commentRole_ok names source opened span
  cases role : commentRole names source opened span with
  | text =>
    rw [role] at eq
    exact List.mem_append_left _ (earlier found eq)
  | opensMacro next =>
    rw [role] at eq known
    obtain rfl := Option.some.inj eq
    rw [known]
    exact List.mem_append_right _ (List.mem_singleton_self _)
  | _ => simp [role, CommentRole.opens?] at eq

namespace Walk

variable {Compiled : Type} {job : Job Compiled} {w w' : Walk Compiled} {agenda agenda' rest : List Duty}
  {requests : List Request} {roots : List Node}

/-- A step leaves duties that have to do with the tree. -/
theorem advance_from (h : advance job w rest duty = .ok (w', agenda'))
    (here : ∀ next ∈ duty :: rest, next.From job.names roots) : ∀ next ∈ agenda', next.From job.names roots := by
  have own := here duty List.mem_cons_self
  have others : ∀ next ∈ rest, next.From job.names roots := fun next member =>
    here next (List.mem_cons_of_mem _ member)
  -- the duty gives way to one that has to do with the tree
  have instead : ∀ {next : Duty}, next.From job.names roots →
      ∀ found ∈ next :: rest, found.From job.names roots := by
    intro next from_tree found member
    rcases List.mem_cons.mp member with rfl | member
    · exact from_tree
    · exact others found member
  cases advance_advances h with
  | ended | statement _ | closing => exact others
  | comment commented =>
    rw [comment_opens commented]
    exact instead own.comment
  | passed | extracted _ _ => exact instead own.later
  | @entered tag stop children nodes _ =>
    obtain ⟨before, siblings, _⟩ := id own
    have member : .element tag stop children ∈ before ++ .element tag stop children :: nodes :=
      List.mem_append_right _ List.mem_cons_self
    intro next found
    simp only [List.mem_append, List.mem_cons, List.mem_map] at found
    rcases found with ⟨statement, found, rfl⟩ | rfl | ⟨code, _, rfl⟩ | found
    · exact ⟨_, stop, children, siblings, member, found⟩
    · exact ⟨[], .children siblings member, fun _ eq => (Option.some_ne_none _ eq.symm).elim⟩
    · trivial
    · exact instead own.later next (List.mem_cons.mpr found)

theorem Runs.from (run : Runs job w agenda requests w' agenda')
    (here : ∀ next ∈ agenda, next.From job.names roots) : ∀ next ∈ agenda', next.From job.names roots := by
  induction run with
  | done => exact here
  | step advanced _ ih => exact ih (advance_from advanced here)

/-- All that a walk through a forest takes up has to do with the forest. -/
theorem Runs.from_roots (run : Runs job w [.row none roots] requests w' agenda) :
    ∀ next ∈ agenda, next.From job.names roots := by
  refine run.from fun next member => ?_
  rw [List.mem_singleton.mp member]
  exact ⟨[], .roots, fun _ eq => (Option.some_ne_none _ eq.symm).elim⟩

theorem statement_of_refused {directive : Directive} {e : CodeError}
    (refused : job.dialect.statement directive w.symbols = .error e) :
    w.statement job directive = w.fail job (.invalidDirective directive.name directive.value e.message)
      (e.offset.getD directive.valueStart) := by
  unfold statement
  rw [refused]

/-- A dialect that refuses a statement makes the step fail, at the value unless it knows better. -/
theorem advance_of_refused (job : Job Compiled) (rest : List Duty) (directive : Directive) {e : CodeError}
    (asks : duty.requests job.names job.resource.source = [.statement directive])
    (refused : job.dialect.statement directive w.symbols = .error e) :
    advance job w rest duty = w.fail job (.invalidDirective directive.name directive.value e.message)
      (e.offset.getD directive.valueStart) := by
  rcases Duty.asks_statement asks with ⟨tag, kind, a, rfl, rfl⟩ | ⟨opened, span, nodes, rfl, role⟩
  · rw [advance, statementAttribute]
    show (w.statement job (a.statement kind) >>= _) >>= _ = _
    rw [statement_of_refused refused]
    rfl
  · rw [advance, comment_eq, role]
    simp only
    rw [statement_of_refused refused]
    rfl

theorem register_of_failed (span : Span) {symbols : SymbolTable} {e : ParseError}
    (declared : w.symbols.declare head.name templateType = .ok symbols)
    (failed : (job.parseBody (job.resource.extract head.name body.text)).2 = .error e) :
    ∃ events, w.register job head body span =
      .error ⟨.locate e.fault job.resource (body.sourceOffset e.offset), events⟩ := by
  unfold register
  rw [declared]
  simp only
  rw [failed]
  exact ⟨_, rfl⟩

/-- A fault in the body of a macro is one of the source that the macro stands in. -/
theorem advance_of_failed (job : Job Compiled) (rest : List Duty) {symbols : SymbolTable} {e : ParseError}
    (extracts : duty.Extracts job.names job.resource.source head body segments)
    (declared : w.symbols.declare head.name templateType = .ok symbols)
    (failed : (job.parseBody (job.resource.extract head.name body.text)).2 = .error e) :
    ∃ events, advance job w rest duty =
      .error ⟨.locate e.fault job.resource (body.sourceOffset e.offset), events⟩ := by
  cases extracts with
  | @element tag stop children nodes declaration head declares read =>
    obtain ⟨events, registered⟩ := register_of_failed ⟨tag.span.start, stop⟩ declared failed
    refine ⟨events, ?_⟩
    rw [advance, declares]
    simp only
    rw [elementMacro, macroHead, read]
    show ((w.register job head _ ⟨tag.span.start, stop⟩ >>= _) >>= _) = _
    rw [registered]
    rfl
  | @run opened found span nodes head closes read =>
    obtain ⟨events, registered⟩ := register_of_failed ⟨found.comment.stop, span.start⟩ declared failed
    refine ⟨events, ?_⟩
    rw [advance, comment_eq, closes]
    simp only
    rw [runMacro, macroHead, read]
    show ((w.register job head _ ⟨found.comment.stop, span.start⟩ >>= _).map _ >>= _) = _
    rw [registered]
    rfl

end Walk

end MarkupTemplates
