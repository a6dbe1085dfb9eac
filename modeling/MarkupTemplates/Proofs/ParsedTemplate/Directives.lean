import MarkupTemplates.Proofs.ParsedTemplate.Agenda
import MarkupTemplates.Proofs.ParsedTemplate.Attributes
import MarkupTemplates.Proofs.ParsedTemplate.OpenMacros

namespace MarkupTemplates

variable {Compiled : Type} {job : Job Compiled} {w w' : Walk Compiled}

namespace Walk

theorem node_opens {opened next : Option OpenMacro} {tag : Tag} {stop : Nat} {children : List Node}
    (h : node job opened w (.element tag stop children) = .ok (next, w')) : next = opened := by
  rw [node] at h
  cases opened with
  | some opened => exact (Prod.mk.inj (Except.ok.inj h)).1.symm
  | none =>
    simp only [Option.isSome_none, Bool.false_eq_true, if_false] at h
    cases declared : declarationOf? job.names tag with
    | some declaration =>
      rw [declared] at h
      obtain ⟨_, _, eq⟩ := ok_of_bind h
      exact (Prod.mk.inj (Except.ok.inj eq)).1.symm
    | none =>
      rw [declared] at h
      obtain ⟨_, _, h⟩ := ok_of_bind h
      obtain ⟨_, _, eq⟩ := ok_of_bind h
      exact (Prod.mk.inj (Except.ok.inj eq)).1.symm

/-- Behind the first nodes of a row a walk goes on with the macro that is open there. -/
theorem siblings_after {opened : Option OpenMacro} {first second : List Node}
    (h : siblings job opened w (first ++ second) = .ok w') :
    ∃ w1, siblings job (openAfter job.names job.resource.source opened first) w1 second = .ok w' := by
  induction first generalizing opened w with
  | nil => exact ⟨w, h⟩
  | cons first rest ih =>
    obtain ⟨⟨next, w1⟩, own, others⟩ := ok_of_bind h
    cases first with
    | comment span =>
      obtain rfl := comment_opens own
      exact ih others
    | element tag stop children =>
      obtain rfl := node_opens own
      exact ih others

theorem siblings_closed {opened : Option OpenMacro} {nodes : List Node}
    (h : siblings job opened w nodes = .ok w') :
    openAfter job.names job.resource.source opened nodes = none := by
  rw [← List.append_nil nodes] at h
  obtain ⟨w1, atEnd⟩ := siblings_after h
  cases state : openAfter job.names job.resource.source opened nodes with
  | none => rfl
  | some opened =>
    rw [state] at atEnd
    simp [siblings, fail] at atEnd

theorem siblings_content {tag : Tag} {stop : Nat} {children rest : List Node}
    (undeclared : declarationOf? job.names tag = none)
    (h : siblings job none w (.element tag stop children :: rest) = .ok w') :
    ∃ w1 w2, siblings job none w1 children = .ok w2 := by
  obtain ⟨_, own, _⟩ := ok_of_bind h
  rw [node] at own
  simp only [Option.isSome_none, Bool.false_eq_true, if_false, undeclared] at own
  obtain ⟨w1, _, own⟩ := ok_of_bind own
  obtain ⟨w2, content, _⟩ := ok_of_bind own
  exact ⟨w1, w2, content⟩

/-- A walk that comes to an end has come through every row outside of macros. -/
theorem siblings_outside {roots row : List Node} (h : siblings job none w roots = .ok w')
    (reached : RowOutside job.names (Withheld job.names job.resource.source) roots row) :
    ∃ w1 w2, siblings job none w1 row = .ok w2 := by
  induction reached with
  | roots => exact ⟨w, w', h⟩
  | @children before after children tag stop _ outside undeclared ih =>
    obtain ⟨w1, w2, walked⟩ := ih
    have state := (openAfter_eq_none_iff (siblings_closed walked)).mpr (not_or.mp outside)
    obtain ⟨w3, here⟩ := siblings_after walked
    rw [state] at here
    exact siblings_content undeclared here

theorem leavesNoneOpen {roots : List Node} (h : siblings job none w roots = .ok w') :
    LeavesNoneOpen job.names job.resource.source roots := by
  intro row reached
  obtain ⟨_, _, walked⟩ := siblings_outside h reached
  exact siblings_closed walked

end Walk

theorem RowOutside.siblings {names : DirectiveNames} {hidden : List Node → List Node → Prop}
    {roots row : List Node} (reached : RowOutside names hidden roots row) : Siblings roots row := by
  induction reached with
  | roots => exact .roots
  | children _ _ _ ih => exact .children ih (List.mem_append_right _ List.mem_cons_self)

theorem mem_attributes_of_statement {names : DirectiveNames} {tag : Tag} {kind : DirectiveKind}
    {a : Attribute} (member : (kind, a) ∈ Walk.statementsOf names tag) : a ∈ tag.attributes :=
  (statementsOf_sublist names tag).subset (List.mem_map.mpr ⟨(kind, a), member, rfl⟩)

/-- A comment that reads as a directive takes up room. -/
theorem comment_span {names : DirectiveNames} {source : Text} {opened : Option OpenMacro} {span : Span}
    (counts : commentRole names source opened span ≠ .text) : span.start < span.stop := by
  rcases Nat.lt_or_ge span.start span.stop with forward | backward
  · exact forward
  have nothing : source.at span = [] := by
    rw [Text.at, Text.slice, Nat.sub_eq_zero_of_le backward]
    cases Text.dropBytes span.start source <;> rfl
  rw [commentRole, nothing] at counts
  exact absurd rfl counts

theorem Outside.nonempty {names : DirectiveNames} {source : Text}
    {hidden : List Node → List Node → Prop} {passage : Passage}
    (outside : Outside names source hidden source.nodes passage) :
    passage.span.start < passage.span.stop := by
  cases outside with
  | inTag reached _ _ member =>
    exact attribute_span reached.siblings (List.mem_append_right _ List.mem_cons_self)
      (mem_attributes_of_statement member)
  | statement _ _ role => exact comment_span (by rw [role]; exact CommentRole.noConfusion)
  | ending _ _ role => exact comment_span (by rw [role]; exact CommentRole.noConfusion)

/-- Where a source has been parsed, its directives outside of macros have been rewritten, save those
between a macro comment and another one that it gives way to: the dialect was asked for each of them
once, in the order of the source, and no text of them is kept. -/
theorem directives_outside_macros {parser : Parser Compiled} {stream : Bool} {resource : Resource}
    {events : List Event} {template : ParsedTemplate Compiled}
    (parsed : parser.parse stream resource = (events, .ok template)) :
    let source := resource.source
    let parts := layout parser.names source 0 source.byteSize none source.nodes
    ∃ list : List Passage,
      (∀ passage, passage ∈ list ↔
        Outside parser.names source (Withheld parser.names source) source.nodes passage) ∧
      (∀ passage ∈ list, passage.span.start < passage.span.stop) ∧
      (list.Pairwise fun a b => a.span.stop ≤ b.span.start) ∧
      (∃ depth w, Walk.Runs (parser.job stream depth resource) {} [.row none source.nodes]
        (list.map Passage.request) w [] ∧
        template.code = w.edits.apply source ∧ template.symbols = w.symbols) ∧
      parts.filterMap Part.request? = list.map Passage.request ∧
      written? parser.dialect source {} parts = some (template.code, template.symbols) ∧
      ∀ span, .kept span ∈ parts → ∀ passage ∈ list,
        span.stop ≤ passage.span.start ∨ passage.span.stop ≤ span.start := by
  intro source parts
  obtain ⟨depth, w, _, walked, rfl⟩ := Parser.parseWithin_ok parsed
  have closed := Walk.leavesNoneOpen walked
  have clear := (placed_nodes source).clear parser.names (Nat.le_refl 0) none
  have member : ∀ passage, passage ∈ passages parser.names source none source.nodes ↔
      Outside parser.names source (Withheld parser.names source) source.nodes passage := fun passage =>
    ⟨outside_of_mem_passages closed [] .roots, mem_passages_of_outside closed⟩
  refine ⟨passages parser.names source none source.nodes, member, ?_, clear.ordered, ⟨depth, w, ?_, rfl, rfl⟩,
    requests_layout .., parser.parseWithin_written parsed, clear.apart⟩
  · exact fun passage found => ((member passage).mp found).nonempty
  · exact Walk.siblings_runs walked []

/-- A statement on an element, one in a macro, one that is given up with its macro, and an end. -/
theorem directives_outside_macros_of_page :
    let source : Text :=
      "<p if='a'>é</p><!-- macro='m' --><i if='b'/><!-- macro='n' -->x<!-- end='macro' --><!-- end='if' -->"
    let resource : Resource := { name := "page", source }
    ∃ events template, ∃ list : List Passage, Parser.echo.parse false resource = (events, .ok template) ∧
      (∀ passage, passage ∈ list ↔
        Outside Parser.echo.names source (Withheld Parser.echo.names source) source.nodes passage) ∧
      list.map Passage.request = [.statement ⟨.ifTrue, "if", "a", 3, 7⟩, .ending "if"] ∧
      ∀ span, .kept span ∈ layout Parser.echo.names source 0 source.byteSize none source.nodes →
        ∀ passage ∈ list, span.stop ≤ passage.span.start ∨ passage.span.stop ≤ span.start := by
  intro source resource
  have succeeds : (Parser.echo.parse false resource).2.isOk = true := by decide +kernel
  have asked : (layout Parser.echo.names source 0 source.byteSize none source.nodes).filterMap Part.request? =
      [.statement ⟨.ifTrue, "if", "a", 3, 7⟩, .ending "if"] := by decide +kernel
  obtain ⟨events, template, parsed⟩ := Parser.exists_of_isOk succeeds
  obtain ⟨list, member, _, _, _, requests, _, apart⟩ := directives_outside_macros parsed
  exact ⟨events, template, list, parsed, member, requests.symm.trans asked, apart⟩

/-- A directive outside of macros that is kept as it is written, for it comes after a macro comment that
gives way to another. -/
theorem directive_kept_behind_given_up_macro :
    let source : Text := "<!--macro='a'--><p if='x'>y</p><!--macro='b'-->z<!--end='macro'-->"
    let resource : Resource := { name := "t", source }
    let parts := layout Parser.echo.names source 0 source.byteSize none source.nodes
    ∃ events template passage span, Parser.echo.parse false resource = (events, .ok template) ∧
      Outside Parser.echo.names source (InRun Parser.echo.names source) source.nodes passage ∧
      passage.request ∉ parts.filterMap Part.request? ∧
      .kept span ∈ parts ∧ span.start ≤ passage.span.start ∧ passage.span.stop ≤ span.stop ∧
      template.code = ("<p if='x'>y</p>\x0235:b\x03" : Text) := by
  intro source resource parts
  let a : Attribute := ⟨"if", some "x", ⟨19, 25⟩, some 23⟩
  let tag : Tag := ⟨"p", [a], ⟨16, 26⟩⟩
  have nodes : source.nodes = [.comment ⟨0, 16⟩] ++
      [.element tag 31 [], .comment ⟨31, 47⟩, .comment ⟨48, 66⟩] := by decide +kernel
  have laid : parts = [.kept ⟨0, 0⟩, .dropped ⟨0, 16⟩, .kept ⟨16, 31⟩, .binding 35 "macro" "b", .kept ⟨66, 66⟩] := by
    show layout Parser.echo.names source 0 source.byteSize none source.nodes = _
    rw [nodes]
    decide +kernel
  have opens : OpensMacro Parser.echo.names source ⟨31, 47⟩ := by
    have role : ((commentRole Parser.echo.names source none ⟨31, 47⟩).opens? none).isSome = true := by
      decide +kernel
    simpa using (opens?_isSome_iff none ⟨31, 47⟩).mp role
  have outside : ¬ InRun Parser.echo.names source [.comment ⟨0, 16⟩]
      [.element tag 31 [], .comment ⟨31, 47⟩, .comment ⟨48, 66⟩] := by
    rintro ⟨_, _, _, inner, closing, later, _, split, _, ends, _, calm⟩
    match inner with
    | [] => exact Node.noConfusion (List.cons.inj split).1
    | [first] =>
      obtain ⟨eq, _⟩ := List.cons.inj (List.cons.inj split).2
      rw [← Node.comment.inj eq] at ends
      exact not_endsMacro_of_opensMacro opens ends
    | first :: second :: inner =>
      obtain ⟨rfl, _⟩ := List.cons.inj (List.cons.inj split).2
      exact (calm _ (List.mem_cons_of_mem _ List.mem_cons_self)).1 opens
  have succeeds : (Parser.echo.parse false resource).2.isOk = true := by decide +kernel
  have written : (written? Parser.echo.dialect source {} parts).map Prod.fst =
      some ("<p if='x'>y</p>\x0235:b\x03" : Text) := by
    rw [laid]
    decide +kernel
  have reached : RowOutside Parser.echo.names (InRun Parser.echo.names source) source.nodes
      ([.comment ⟨0, 16⟩] ++ .element tag 31 [] :: [.comment ⟨31, 47⟩, .comment ⟨48, 66⟩]) := by
    rw [nodes]
    exact .roots
  obtain ⟨events, template, parsed⟩ := Parser.exists_of_isOk succeeds
  rw [Parser.parseWithin_written parsed] at written
  exact ⟨events, template, ⟨a.span, .statement (a.statement .ifTrue)⟩, ⟨16, 31⟩, parsed,
    .inTag reached outside (by decide +kernel) (by decide +kernel), by rw [laid]; decide, by rw [laid]; decide,
    by decide, by decide, Option.some.inj written⟩

end MarkupTemplates
