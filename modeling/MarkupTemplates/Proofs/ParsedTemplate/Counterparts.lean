import MarkupTemplates.Proofs.ParsedTemplate.WrittenAlike
import MarkupTemplates.Proofs.Symbols.Consistency

namespace MarkupTemplates

variable {Compiled : Type}

/-- The same job for another source. -/
def Job.over (job : Job Compiled) (other : Text) : Job Compiled :=
  { job with resource := { job.resource with source := other } }

namespace Walk

/-- Two walks that have come to know the same names. -/
structure Level (w w' : Walk Compiled) : Prop where
  symbols : w.symbols = w'.symbols
  macros : w.macros.keys = w'.macros.keys

variable {job : Job Compiled} {w w' : Walk Compiled} {other : Text}

theorem Level.edited (level : w.Level w') (edits edits' : Edits) :
    ({ w with edits := edits } : Walk Compiled).Level { w' with edits := edits' } := ⟨level.symbols, level.macros⟩

theorem Level.statement (placeless : job.dialect.Placeless) (level : w.Level w') {directive directive' : Directive}
    (kind : directive'.kind = directive.kind) (name : directive'.name = directive.name)
    (value : directive'.value = directive.value) :
    Agree (fun a b => a.2.Level b.2) (w.statement job directive) (w'.statement (job.over other) directive') := by
  have same := placeless.agree kind name value w'.symbols
  rw [Walk.statement, Walk.statement, level.symbols]
  simp only [Job.over]
  generalize job.dialect.statement directive w'.symbols = answer at same ⊢
  generalize job.dialect.statement directive' w'.symbols = answer' at same ⊢
  obtain ⟨_, _, rfl, rfl⟩ | ⟨made, _, rfl, rfl, rfl⟩ := same.results
  · trivial
  · exact ⟨rfl, level.macros⟩

theorem Level.register (level : w.Level w') (head : MacroHead) {body body' : MacroBody} (same : body'.text = body.text)
    (span span' : Span) :
    Agree (fun a b => a.2.Level b.2) (w.register job head body span) (w'.register (job.over other) head body' span') := by
  have resource : (job.over other).resource.extract head.name body'.text = job.resource.extract head.name body.text := by
    rw [same]
    rfl
  unfold Walk.register
  rw [level.symbols, resource]
  cases w'.symbols.declare head.name templateType with
  | error found => trivial
  | ok symbols =>
    simp only [Job.over]
    cases (job.parseBody (job.resource.extract head.name body.text)).2 with
    | error e => trivial
    | ok template =>
      simp only
      cases job.compiler.compile template with
      | error e => trivial
      | ok compiled =>
        refine ⟨rfl, ?_⟩
        rw [Dictionary.keys_insert, Dictionary.keys_insert]
        exact congrArg (NameSet.insert · head.name) level.macros

theorem agree_macroHead (w w' : Walk Compiled) (directive value : Text) (start start' : Nat) :
    Agree Eq (w.macroHead job directive value start) (w'.macroHead (job.over other) directive value start') := by
  unfold macroHead
  cases MacroHead.read directive value with
  | error fault => trivial
  | ok head => exact (rfl : head = head)

theorem Level.comment {shift low high : Nat} (placeless : job.dialect.Placeless)
    (recurs : job.resource.source.Recurs other shift low high) (level : w.Level w') {opened : Option OpenMacro}
    {span : Span} (same : other.at (span.relocated (· + shift)) = job.resource.source.at span)
    (atStart : job.resource.source.IsBoundary span.start) (upper : span.start ≤ high)
    (earlier : ∀ found, opened = some found → low ≤ found.comment.stop ∧
      job.resource.source.IsBoundary found.comment.stop ∧ found.comment.stop ≤ span.start) :
    Agree (fun a b => b.1 = a.1.map (OpenMacro.relocated (· + shift)) ∧ a.2.Level b.2 ∧
        ∀ found, a.1 = some found → opened = some found ∨ found.comment = span)
      (w.comment job opened span)
      (w'.comment (job.over other) (opened.map (OpenMacro.relocated (· + shift))) (span.relocated (· + shift))) := by
  have role : commentRole (job.over other).names (job.over other).resource.source
      (opened.map (OpenMacro.relocated (· + shift))) (span.relocated (· + shift)) = _ :=
    commentRole_relocated job.names same opened
  have known := commentRole_ok job.names job.resource.source opened span
  rw [comment_eq, comment_eq, role]
  cases own : commentRole job.names job.resource.source opened span with
  | text => exact ⟨rfl, level, fun found => .inl⟩
  | statement directive =>
    have stated : Agree (fun a b => a.2.Level b.2) (w.statement job directive)
        (w'.statement (job.over other) (directive.relocated (· + shift))) := level.statement placeless rfl rfl rfl
    exact stated.bind fun a b related => ⟨rfl, related.edited _ _, nofun⟩
  | ending name => exact ⟨rfl, ⟨level.symbols, level.macros⟩, nofun⟩
  | opensMacro next =>
    rw [own] at known
    refine ⟨rfl, ?_, fun found eq => .inr (Option.some.inj eq ▸ known)⟩
    cases opened <;> exact ⟨level.symbols, level.macros⟩
  | closesMacro found =>
    rw [own] at known
    obtain ⟨lower, atRun, forward⟩ := earlier found known
    let run : Span := ⟨found.comment.stop, span.start⟩
    have body (head : MacroHead) := @MacroBody.ofRun_relocated _ _ _ _ _ recurs run lower atRun forward atStart upper
      found.comment.start (found.comment.start + shift) (job.names.name .var) head.parameters
    have ran : Agree Level (w.runMacro job found span)
        (w'.runMacro (job.over other) (found.relocated (· + shift)) (span.relocated (· + shift))) := by
      refine (agree_macroHead ..).bind fun head head' eq => ?_
      subst eq
      exact (level.register head (body head) _ _).bind fun a b related => related.edited _ _
    exact ran.map fun a b related => ⟨rfl, related, nofun⟩

theorem Level.statementAttribute (placeless : job.dialect.Placeless) (level : w.Level w') (tag tag' : Tag)
    (kind : DirectiveKind) (move : Nat → Nat) (a : Attribute) :
    Agree Level (w.statementAttribute job tag kind a)
      (w'.statementAttribute (job.over other) tag' kind (a.relocated move)) := by
  have stated : Agree (fun a b => a.2.Level b.2) (w.statement job (a.statement kind))
      (w'.statement (job.over other) ((a.relocated move).statement kind)) := level.statement placeless rfl rfl rfl
  exact stated.bind fun a b related => related.edited _ _

theorem Level.statementAttributes (placeless : job.dialect.Placeless) (level : w.Level w') (tag tag' : Tag)
    (move : Nat → Nat) (list : List (DirectiveKind × Attribute)) :
    Agree Level (Walk.statementAttributes job tag list w) (Walk.statementAttributes (job.over other) tag'
      (list.map fun statement => (statement.1, statement.2.relocated move)) w') := by
  induction list generalizing w w' with
  | nil => exact level
  | cons statement list ih =>
    obtain ⟨kind, a⟩ := statement
    exact (level.statementAttribute placeless tag tag' kind move a).bind fun w w' related => ih related

theorem Level.closed (level : w.Level w') (stop stop' : Nat) (codes codes' : List Text) :
    (codes.foldl (fun w code => w.place stop 0 code) w).Level
      (codes'.foldl (fun w code => w.place stop' 0 code) w') := by
  have kept (w : Walk Compiled) (stop : Nat) (codes : List Text) :
      (codes.foldl (fun w code => w.place stop 0 code) w).Level w := by
    induction codes generalizing w with
    | nil => exact ⟨rfl, rfl⟩
    | cons code codes ih => exact ⟨(ih _).symbols, (ih _).macros⟩
  have one := kept w stop codes
  have two := kept w' stop' codes'
  exact ⟨one.symbols.trans (level.symbols.trans two.symbols.symm), one.macros.trans (level.macros.trans two.macros.symm)⟩

section

variable {shift low high : Nat} (placeless : job.dialect.Placeless)
  (recurs : job.resource.source.Recurs other shift low high)

include placeless recurs

/-- An element that recurs in another source is walked through there as it is here, if its content is. -/
theorem Level.element (level : w.Level w') {tag : Tag} {stop : Nat} {children : List Node} (lower : low ≤ tag.span.start)
    (atStart : job.resource.source.IsBoundary tag.span.start)
    (attributes : AttributesPlaced job.resource.source tag.span.stop tag.span.start tag.attributes)
    (atStop : job.resource.source.IsBoundary stop) (forward : tag.span.stop ≤ stop) (upper : stop ≤ high)
    (content : ∀ w w' : Walk Compiled, w.Level w' → Agree Level (siblings job none w children)
      (siblings (job.over other) none w' (children.map (Node.relocated (· + shift))))) :
    Agree (fun a b => a.1 = none ∧ b.1 = none ∧ a.2.Level b.2) (node job none w (.element tag stop children))
      (node (job.over other) none w' ((Node.element tag stop children).relocated (· + shift))) := by
  rw [Node.relocated, node, node, show (job.over other).names = job.names from rfl, declarationOf?_relocated,
    statementsOf_relocated, relocatedInRow_eq_map]
  simp only [Option.isSome_none, Bool.false_eq_true, if_false]
  cases declares : declarationOf? job.names tag with
  | some declaration =>
    have member : declaration ∈ tag.attributes := List.mem_of_find?_eq_some declares
    have body (head : MacroHead) := MacroBody.ofElement_relocated recurs lower atStart attributes member atStop forward upper
      (job.names.name .var) head.parameters
    have made : Agree Level (w.elementMacro job tag stop declaration) (w'.elementMacro (job.over other)
        (tag.relocated (· + shift)) (stop + shift) (declaration.relocated (· + shift))) := by
      refine (agree_macroHead ..).bind fun head head' eq => ?_
      subst eq
      exact (level.register head (body head) _ _).bind fun a b related => related.edited _ _
    exact made.bind fun a b related => ⟨rfl, rfl, related⟩
  | none =>
    refine (level.statementAttributes placeless tag _ (· + shift) _).bind fun w1 w1' stated => ?_
    exact (content w1 w1' stated).bind fun w2 w2' inner => ⟨rfl, rfl, inner.closed _ _ _ _⟩

/-- Markup that recurs in another source is walked through there as it is here. -/
theorem Level.siblings {lo hi : Nat} {nodes : List Node} (placed : Placed job.resource.source lo hi nodes)
    (lower : low ≤ lo) (upper : hi ≤ high) (level : w.Level w') (opened : Option OpenMacro)
    (earlier : ∀ found, opened = some found → low ≤ found.comment.stop ∧
      job.resource.source.IsBoundary found.comment.stop ∧ found.comment.stop ≤ lo) :
    Agree Level (Walk.siblings job opened w nodes) (Walk.siblings (job.over other)
      (opened.map (OpenMacro.relocated (· + shift))) w' (nodes.map (Node.relocated (· + shift)))) := by
  induction placed generalizing w w' opened with
  | nil => cases opened with
    | none => exact level
    | some opened => trivial
  | @comment lo hi span rest above atStart forward atStop others ih =>
    have inside := others.le
    have same := recurs.at (Nat.le_trans lower above) atStart forward atStop (by omega)
    have commented := level.comment placeless recurs same atStart (by omega) fun found open_macro => by
      obtain ⟨within, atRun, ahead⟩ := earlier found open_macro
      exact ⟨within, atRun, by omega⟩
    rw [List.map_cons, Node.relocated, Walk.siblings, Walk.siblings, node, node]
    refine commented.bind fun a b related => ?_
    obtain ⟨next, w1⟩ := a
    obtain ⟨next', w1'⟩ := b
    obtain ⟨rfl, related, origin⟩ := related
    refine ih (by omega) upper related next fun found open_macro => ?_
    rcases origin found open_macro with before | rfl
    · obtain ⟨within, atRun, ahead⟩ := earlier found before
      exact ⟨within, atRun, by omega⟩
    · exact ⟨by omega, atStop, Nat.le_refl _⟩
  | @element lo hi stop tag children rest above atStart attributes atTag content atStop others ihContent ih =>
    have ahead := attributes.le
    have inner := content.le
    have inside := others.le
    have later {w w' : Walk Compiled} (level : w.Level w') (opened : Option OpenMacro) := @ih w w' (by omega) upper level opened
    rw [List.map_cons, Walk.siblings, Walk.siblings]
    cases opened with
    | some opened =>
      rw [Node.relocated, node, node]
      exact later level (some opened) fun found open_macro => by
        obtain ⟨within, atRun, before⟩ := earlier found open_macro
        exact ⟨within, atRun, by omega⟩
    | none =>
      have own := level.element placeless recurs (Nat.le_trans lower above) atStart attributes atStop inner (by omega)
        fun w w' level => @ihContent w w' (by omega) (by omega) level none fun _ open_macro => by cases open_macro
      refine own.bind fun a b related => ?_
      obtain ⟨next, w1⟩ := a
      obtain ⟨next', w1'⟩ := b
      obtain ⟨rfl, rfl, related⟩ := related
      exact later related none fun _ open_macro => by cases open_macro

end

end Walk

end MarkupTemplates
