import MarkupTemplates.Proofs.ParsedTemplate.Passages
import MarkupTemplates.Proofs.ParsedTemplate.Rewriting

namespace MarkupTemplates

/-- What a walk still has to do. -/
inductive Duty where
  /-- To walk through nodes in a row. -/
  | row (opened : Option OpenMacro) (nodes : List Node)
  /-- To rewrite a statement attribute. -/
  | statement (tag : Tag) (kind : DirectiveKind) (a : Attribute)
  /-- To put the code that closes a statement where its element ends. -/
  | closing (stop : Nat) (code : Text)

/-- What the dialect is asked for when the duty is taken up. -/
def Duty.requests (names : DirectiveNames) (source : Text) : Duty → List Request
  | row opened (.comment span :: _) => (commentRole names source opened span).requests
  | statement _ kind a => [.statement (a.statement kind)]
  | _ => []

/-- A statement is asked for where an attribute or a comment is one. -/
theorem Duty.asks_statement {names : DirectiveNames} {source : Text} {duty : Duty} {directive : Directive}
    (asks : duty.requests names source = [.statement directive]) :
    (∃ tag kind a, duty = .statement tag kind a ∧ directive = a.statement kind) ∨
      ∃ opened span nodes, duty = .row opened (.comment span :: nodes) ∧
        commentRole names source opened span = .statement directive := by
  cases duty with
  | statement tag kind a =>
    obtain rfl := Request.statement.inj (List.cons.inj asks).1
    exact .inl ⟨tag, kind, a, rfl, rfl⟩
  | closing stop code => simp [requests] at asks
  | row opened nodes =>
    cases nodes with
    | nil => simp [requests] at asks
    | cons node nodes =>
      cases node with
      | element tag stop children => simp [requests] at asks
      | comment span =>
        rw [requests, CommentRole.requests_eq_statement_iff] at asks
        exact .inr ⟨opened, span, nodes, rfl, asks⟩

namespace Walk

variable {Compiled : Type}

/-- One step of a walk: a single node, attribute or closing code. An element outside of macros gives way
to the duties that it consists of. -/
def advance (job : Job Compiled) (w : Walk Compiled) (rest : List Duty) :
    Duty → Except ParseFailure (Walk Compiled × List Duty)
  | .row none [] => .ok (w, rest)
  | .row (some opened) [] => w.fail job (.unclosedMacro opened.value) opened.comment.start
  | .row opened (.comment span :: nodes) => do
    let (opened, w) ← w.comment job opened span
    return (w, .row opened nodes :: rest)
  | .row (some opened) (.element .. :: nodes) => .ok (w, .row (some opened) nodes :: rest)
  | .row none (.element tag stop children :: nodes) =>
    match declarationOf? job.names tag with
    | some declaration => do return (← w.elementMacro job tag stop declaration, .row none nodes :: rest)
    | none =>
      .ok (w, (statementsOf job.names tag).map (fun (kind, a) => .statement tag kind a) ++
        .row none children :: ((endings job tag).map (.closing stop) ++ .row none nodes :: rest))
  | .statement tag kind a => do return (← w.statementAttribute job tag kind a, rest)
  | .closing stop code => .ok (w.place stop 0 code, rest)

/-- Steps in a row, with all that the dialect is asked for on the way. -/
inductive Runs (job : Job Compiled) :
    Walk Compiled → List Duty → List Request → Walk Compiled → List Duty → Prop
  | done {w agenda} : Runs job w agenda [] w agenda
  | step {w duty rest w' agenda' requests w'' agenda''} :
      advance job w rest duty = .ok (w', agenda') → Runs job w' agenda' requests w'' agenda'' →
      Runs job w (duty :: rest) (duty.requests job.names job.resource.source ++ requests) w'' agenda''

/-- A duty with all that it consists of. -/
def discharge (job : Job Compiled) (w : Walk Compiled) : Duty → Except ParseFailure (Walk Compiled)
  | .row opened nodes => siblings job opened w nodes
  | .statement tag kind a => w.statementAttribute job tag kind a
  | .closing stop code => .ok (w.place stop 0 code)

def dischargeAll (job : Job Compiled) (w : Walk Compiled) : List Duty → Except ParseFailure (Walk Compiled)
  | [] => .ok w
  | duty :: rest => do dischargeAll job (← w.discharge job duty) rest

variable {job : Job Compiled} {w w' w'' : Walk Compiled} {agenda agenda' agenda'' rest : List Duty}
  {requests : List Request}

/-- All that a step can do, by what the duty is. No step gets past the end of a row with a macro open. -/
inductive Advances (job : Job Compiled) (w : Walk Compiled) (rest : List Duty) :
    Duty → Walk Compiled → List Duty → Prop
  | ended : Advances job w rest (.row none []) w rest
  | comment {opened next : Option OpenMacro} {span : Span} {nodes : List Node} {w' : Walk Compiled} :
      w.comment job opened span = .ok (next, w') →
      Advances job w rest (.row opened (.comment span :: nodes)) w' (.row next nodes :: rest)
  | passed {opened : OpenMacro} {tag : Tag} {stop : Nat} {children nodes : List Node} :
      Advances job w rest (.row (some opened) (.element tag stop children :: nodes)) w
        (.row (some opened) nodes :: rest)
  | extracted {tag : Tag} {stop : Nat} {children nodes : List Node} {declaration : Attribute} {w' : Walk Compiled} :
      declarationOf? job.names tag = some declaration → w.elementMacro job tag stop declaration = .ok w' →
      Advances job w rest (.row none (.element tag stop children :: nodes)) w' (.row none nodes :: rest)
  | entered {tag : Tag} {stop : Nat} {children nodes : List Node} : declarationOf? job.names tag = none →
      Advances job w rest (.row none (.element tag stop children :: nodes)) w
        ((statementsOf job.names tag).map (fun (kind, a) => .statement tag kind a) ++
          .row none children :: ((endings job tag).map (.closing stop) ++ .row none nodes :: rest))
  | statement {tag : Tag} {kind : DirectiveKind} {a : Attribute} {code : Text} {w1 : Walk Compiled} :
      w.statement job (a.statement kind) = .ok (code, w1) →
      Advances job w rest (.statement tag kind a)
        ((w1.place tag.span.start a.reach.length code).remove a.reach) rest
  | closing {stop : Nat} {code : Text} : Advances job w rest (.closing stop code) (w.place stop 0 code) rest

theorem advance_advances {duty : Duty} (h : advance job w rest duty = .ok (w', agenda)) :
    Advances job w rest duty w' agenda := by
  match duty with
  | .row none [] =>
    obtain ⟨rfl, rfl⟩ := Prod.mk.inj (Except.ok.inj h)
    exact .ended
  | .row (some opened) [] => simp [advance, fail] at h
  | .row opened (.comment span :: nodes) =>
    rw [advance] at h
    obtain ⟨⟨next, w1⟩, commented, eq⟩ := ok_of_bind h
    obtain ⟨rfl, rfl⟩ := Prod.mk.inj (Except.ok.inj eq)
    exact .comment commented
  | .row (some opened) (.element tag stop children :: nodes) =>
    obtain ⟨rfl, rfl⟩ := Prod.mk.inj (Except.ok.inj h)
    exact .passed
  | .row none (.element tag stop children :: nodes) =>
    rw [advance] at h
    split at h
    · next declaration declared =>
      obtain ⟨w1, made, eq⟩ := ok_of_bind h
      obtain ⟨rfl, rfl⟩ := Prod.mk.inj (Except.ok.inj eq)
      exact .extracted declared made
    · next undeclared =>
      obtain ⟨rfl, rfl⟩ := Prod.mk.inj (Except.ok.inj h)
      exact .entered undeclared
  | .statement tag kind a =>
    obtain ⟨w1, own, eq⟩ := ok_of_bind h
    obtain ⟨rfl, rfl⟩ := Prod.mk.inj (Except.ok.inj eq)
    obtain ⟨⟨code, w2⟩, coded, placed⟩ := ok_of_bind own
    obtain rfl := Except.ok.inj placed
    exact .statement coded
  | .closing stop code =>
    obtain ⟨rfl, rfl⟩ := Prod.mk.inj (Except.ok.inj h)
    exact .closing

theorem Runs.trans {more : List Request} (one : Runs job w agenda requests w' agenda')
    (two : Runs job w' agenda' more w'' agenda'') : Runs job w agenda (requests ++ more) w'' agenda'' := by
  induction one with
  | done => exact two
  | step advanced _ ih =>
    rw [List.append_assoc]
    exact .step advanced (ih two)

theorem dischargeAll_append (first second : List Duty) :
    dischargeAll job w (first ++ second) = (dischargeAll job w first >>= (dischargeAll job · second)) := by
  induction first generalizing w with
  | nil => rfl
  | cons duty first ih =>
    rw [List.cons_append, dischargeAll, dischargeAll]
    cases w.discharge job duty with
    | error e => rfl
    | ok w => exact ih

theorem dischargeAll_statements (tag : Tag) (statements : List (DirectiveKind × Attribute)) :
    dischargeAll job w (statements.map fun (kind, a) => .statement tag kind a) =
      statementAttributes job tag statements w := by
  induction statements generalizing w with
  | nil => rfl
  | cons statement statements ih =>
    obtain ⟨kind, a⟩ := statement
    rw [List.map_cons, dischargeAll, statementAttributes, discharge]
    cases w.statementAttribute job tag kind a with
    | error e => rfl
    | ok w => exact ih

theorem dischargeAll_closings (stop : Nat) (codes : List Text) :
    dischargeAll job w (codes.map (.closing stop)) =
      .ok (codes.foldl (fun w code => w.place stop 0 code) w) := by
  induction codes generalizing w with
  | nil => rfl
  | cons code codes ih => exact ih

/-- A step leaves it as it is what all duties together come to. -/
theorem dischargeAll_advance (duty : Duty) :
    dischargeAll job w (duty :: rest) =
      (advance job w rest duty >>= fun next => dischargeAll job next.1 next.2) := by
  rw [dischargeAll]
  match duty with
  | .row none [] => rfl
  | .row (some opened) [] => rfl
  | .row opened (.comment span :: nodes) =>
    rw [discharge, siblings, node, advance]
    cases w.comment job opened span with
    | error e => rfl
    | ok next => rfl
  | .row (some opened) (.element tag stop children :: nodes) =>
    rw [discharge, siblings, node]
    rfl
  | .row none (.element tag stop children :: nodes) =>
    rw [discharge, siblings, node, advance]
    simp only [Option.isSome_none, Bool.false_eq_true, if_false]
    cases declarationOf? job.names tag with
    | some declaration =>
      simp only
      cases w.elementMacro job tag stop declaration with
      | error e => rfl
      | ok w => rfl
    | none =>
      have all := @dischargeAll_append _ job w
        ((statementsOf job.names tag).map fun (kind, a) => .statement tag kind a)
        (.row none children :: ((endings job tag).map (.closing stop) ++ .row none nodes :: rest))
      rw [dischargeAll_statements] at all
      simp only
      show _ = dischargeAll job w _
      rw [all]
      cases statementAttributes job tag (statementsOf job.names tag) w with
      | error e => rfl
      | ok w1 =>
        show _ = dischargeAll job w1 _
        rw [dischargeAll, discharge]
        show ((siblings job none w1 children >>= fun w =>
            pure (none, (endings job tag).foldl (fun w code => w.place stop 0 code) w)) >>= fun next =>
            siblings job next.1 next.2 nodes) >>= _ = _
        cases siblings job none w1 children with
        | error e => rfl
        | ok w2 =>
          show _ = dischargeAll job w2 _
          rw [dischargeAll_append, dischargeAll_closings]
          rfl
  | .statement tag kind a =>
    rw [discharge, advance]
    cases w.statementAttribute job tag kind a with
    | error e => rfl
    | ok w => rfl
  | .closing stop code => rfl

theorem Runs.dischargeAll (run : Runs job w agenda requests w' agenda') :
    dischargeAll job w agenda = Walk.dischargeAll job w' agenda' := by
  induction run with
  | done => rfl
  | step advanced _ ih =>
    rw [dischargeAll_advance, advanced]
    exact ih

theorem comment_opens {opened next : Option OpenMacro} {span : Span}
    (h : w.comment job opened span = .ok (next, w')) :
    next = (commentRole job.names job.resource.source opened span).opens? opened := by
  have own := comment_ok h
  cases role : commentRole job.names job.resource.source opened span <;>
  · rw [role] at own
    exact own.1

theorem statementAttributes_runs {tag : Tag} {statements : List (DirectiveKind × Attribute)}
    (h : statementAttributes job tag statements w = .ok w') (rest : List Duty) :
    Runs job w (statements.map (fun (kind, a) => .statement tag kind a) ++ rest)
      (statements.map fun statement => .statement (statement.2.statement statement.1)) w' rest := by
  induction statements generalizing w with
  | nil =>
    obtain rfl := Except.ok.inj h
    exact .done
  | cons statement statements ih =>
    obtain ⟨w1, first, others⟩ := ok_of_bind h
    refine .step ?_ (ih others)
    rw [advance, first]
    rfl

theorem closings_runs (stop : Nat) (codes : List Text) (rest : List Duty) :
    Runs job w (codes.map (.closing stop) ++ rest) []
      (codes.foldl (fun w code => w.place stop 0 code) w) rest := by
  induction codes generalizing w with
  | nil => exact .done
  | cons code codes ih => exact .step rfl ih

/-- A walk that comes to an end does so step by step, and asks the dialect for what the passages are. -/
theorem siblings_runs {opened : Option OpenMacro} {nodes : List Node}
    (h : siblings job opened w nodes = .ok w') (rest : List Duty) :
    Runs job w (.row opened nodes :: rest)
      ((passages job.names job.resource.source opened nodes).map Passage.request) w' rest := by
  induction nodes using row_induction generalizing opened w w' rest with
  | nil =>
    cases opened with
    | none =>
      obtain rfl := Except.ok.inj h
      exact .step rfl .done
    | some opened => simp [siblings, fail] at h
  | comment span nodes ih =>
    obtain ⟨⟨next, w1⟩, own, others⟩ := ok_of_bind h
    rw [node] at own
    have opens := comment_opens own
    have run : Runs job w (.row opened (.comment span :: nodes) :: rest) _ w' rest :=
      .step (by rw [advance, own]; rfl) (ih others rest)
    rw [opens] at run
    rw [passages, List.map_append, List.map_map]
    simpa only [Function.comp_def, List.map_id', Duty.requests] using run
  | element tag stop children nodes ihChildren ih =>
    obtain ⟨⟨next, w1⟩, own, others⟩ := ok_of_bind h
    rw [node] at own
    cases opened with
    | some opened =>
      simp only [Option.isSome_some, if_true] at own
      obtain ⟨rfl, rfl⟩ := Prod.mk.inj (Except.ok.inj own)
      rw [passages]
      exact .step rfl (ih others rest)
    | none =>
      simp only [Option.isSome_none, Bool.false_eq_true, if_false] at own
      rw [passages, Node.passages, List.map_append]
      cases declared : declarationOf? job.names tag with
      | some declaration =>
        rw [declared] at own
        obtain ⟨w2, macro_ok, eq⟩ := ok_of_bind own
        obtain ⟨rfl, rfl⟩ := Prod.mk.inj (Except.ok.inj eq)
        refine .step ?_ (ih others rest)
        rw [advance, declared]
        simp only
        rw [macro_ok]
        rfl
      | none =>
        rw [declared] at own
        obtain ⟨w2, statements_ok, own⟩ := ok_of_bind own
        obtain ⟨w3, content_ok, eq⟩ := ok_of_bind own
        obtain ⟨rfl, rfl⟩ := Prod.mk.inj (Except.ok.inj eq)
        have after := (@closings_runs _ job w3 stop (endings job tag) _).trans (ih others rest)
        have run := (statementAttributes_runs statements_ok _).trans ((ihChildren content_ok _).trans after)
        rw [List.nil_append, ← List.append_assoc] at run
        simp only [passagesOf, List.map_append, List.map_map]
        refine .step ?_ run
        rw [advance, declared]

end Walk

namespace Parser

variable {Compiled : Type} {parser : Parser Compiled} {stream : Bool} {depth : Nat} {resource : Resource}

/-- What is fixed while a source is parsed in which macros are nested at most `depth` deep. -/
def job (parser : Parser Compiled) (stream : Bool) (depth : Nat) (resource : Resource) : Job Compiled where
  names := parser.names
  dialect := parser.dialect
  compiler := parser.compiler
  resource := resource
  stream := stream
  parseBody := parser.parseWithin stream depth

theorem parseWithin_succ : parser.parseWithin stream (depth + 1) resource =
    match Walk.siblings (parser.job stream depth resource) none {} resource.source.nodes with
    | .error failure => (failure.events, .error failure.error)
    | .ok w =>
      (w.events ++ [.parsed resource.name w.directives w.macros.length],
        .ok { resource, stream, code := w.edits.apply resource.source
              symbols := w.symbols, macros := w.macros, directives := w.directives }) := rfl

theorem parseWithin_ok {events : List Event} {template : ParsedTemplate Compiled}
    (parsed : parser.parseWithin stream depth resource = (events, .ok template)) :
    ∃ below w, depth = below + 1 ∧
      Walk.siblings (parser.job stream below resource) none {} resource.source.nodes = .ok w ∧
      template = { resource, stream, code := w.edits.apply resource.source
                   symbols := w.symbols, macros := w.macros, directives := w.directives } := by
  cases depth with
  | zero => simp [parseWithin] at parsed
  | succ below =>
    rw [parseWithin_succ] at parsed
    split at parsed
    · simp at parsed
    · next w walked => exact ⟨below, w, rfl, walked, (Except.ok.inj (Prod.mk.inj parsed).2).symm⟩

theorem exists_of_isOk (succeeds : (parser.parseWithin stream depth resource).2.isOk = true) :
    ∃ events template, parser.parseWithin stream depth resource = (events, .ok template) := by
  cases parsed : parser.parseWithin stream depth resource with
  | mk events result =>
    cases result with
    | error e => simp [parsed, Except.isOk, Except.toBool] at succeeds
    | ok template => exact ⟨events, template, rfl⟩

/-- What a source is rewritten to, however deep macros may be nested in it. -/
theorem parseWithin_written {events : List Event} {template : ParsedTemplate Compiled}
    (parsed : parser.parseWithin stream depth resource = (events, .ok template)) :
    written? parser.dialect resource.source {}
        (layout parser.names resource.source 0 resource.source.byteSize none resource.source.nodes) =
      some (template.code, template.symbols) := by
  obtain ⟨job, w, dialect, rfl, covers, code, symbols, _⟩ := parser.covers parsed
  rw [code, symbols, ← dialect]
  exact covers.document

end Parser

end MarkupTemplates
