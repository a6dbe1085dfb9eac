import MarkupTemplates.ParsedTemplate.OfSource
import MarkupTemplates.Proofs.Markup.Placement
import MarkupTemplates.Proofs.ParsedTemplate.Coverage

namespace MarkupTemplates

theorem AttributesPlaced.sublist {source : Text} {lo hi : Nat} {attributes fewer : List Attribute}
    (placed : AttributesPlaced source hi lo attributes) (among : fewer.Sublist attributes) :
    AttributesPlaced source hi lo fewer := by
  induction placed generalizing fewer with
  | nil less =>
    obtain rfl := List.sublist_nil.mp among
    exact .nil less
  | cons lower atStart forward atStop _ ih =>
    cases among with
    | cons _ among => exact (ih among).weaken (by omega)
    | cons_cons _ among => exact .cons lower atStart forward atStop (ih among)

theorem statementsOf_sublist (names : DirectiveNames) (tag : Tag) :
    ((Walk.statementsOf names tag).map Prod.snd).Sublist tag.attributes := by
  rw [Walk.statementsOf]
  induction tag.attributes with
  | nil => exact .slnil
  | cons a rest ih =>
    rw [List.filterMap_cons]
    split
    · exact ih.cons a
    · next found eq =>
      have own : found.2 = a := by
        split at eq
        · split at eq
          · exact (congrArg Prod.snd (Option.some.inj eq)).symm
          · simp at eq
        · simp at eq
      rw [List.map_cons, own]
      exact ih.cons_cons a

variable {Compiled : Type} {job : Job Compiled} {w w' : Walk Compiled}

/-- A start tag loses its statement attributes and nothing else. -/
theorem AttributesPlaced.rewrites {lo hi : Nat} {attributes : List Attribute}
    (placed : AttributesPlaced job.resource.source hi lo attributes)
    (atLo : job.resource.source.IsBoundary lo) (atHi : job.resource.source.IsBoundary hi) :
    ∃ text, Edits.Rewrites job.resource.source ⟨attributes.map Attribute.reach, []⟩ lo hi text ∧
      Writes job w w (tagLayout lo hi attributes) text := by
  induction placed with
  | nil less => exact ⟨_, .kept atLo atHi less, .kept _⟩
  | @cons lo a rest lower atStart forward atStop _ ih =>
    obtain ⟨text, rewrites, writes⟩ := ih atStop
    have inFront := Edits.Rewrites.kept atLo atStart (by omega)
    have gone := Edits.Rewrites.removed atStart atStop (by omega)
    have cut := (inFront.append gone).append rewrites
    rw [List.append_nil] at cut
    exact ⟨_, cut, (Writes.kept ⟨lo, a.reach.start⟩).trans writes⟩

namespace Walk

/-- Code and the removal of a span, asked for in this order. -/
theorem edits_replaced (w : Walk Compiled) (position length : Nat) (code : Text) (span : Span) :
    ((w.place position length code).remove span).edits =
      w.edits ++ ⟨[span], [⟨position, marker length code⟩]⟩ := by
  show (w.edits.insert position (marker length code)).remove span = _
  rw [Edits.remove_eq_append, Edits.insert_eq_append, Edits.append_assoc]
  rfl

end Walk

theorem Covers.replaced {w1 : Walk Compiled} {part : Part} {code : Text} {position length : Nat} {span : Span}
    (writes : Writes job w w1 [part] (marker length code)) (edits : w1.edits = w.edits)
    (atStart : job.resource.source.IsBoundary span.start)
    (atStop : job.resource.source.IsBoundary span.stop) (forward : span.start ≤ span.stop)
    (atEnd : position = span.start ∨ position = span.stop) :
    Covers job w ((w1.place position length code).remove span) span.start span.stop [part] := by
  refine ⟨⟨[span], [⟨position, marker length code⟩]⟩, _, ?_, ?_, writes.edited ..⟩
  · rw [Walk.edits_replaced, edits]
  · have gone := Edits.Rewrites.removed atStart atStop forward
    rcases atEnd with rfl | rfl
    · have code_first := (Edits.Rewrites.putOne atStart (marker length code)).append gone
      rwa [List.append_nil] at code_first
    · exact gone.append (.putOne atStop (marker length code))

theorem Covers.closing {boundary : Nat} (atStop : job.resource.source.IsBoundary boundary) (name : Text) :
    Covers job w (if job.dialect.ending name = [] then w else w.place boundary 0 (job.dialect.ending name))
      boundary boundary [.closing name] := by
  by_cases none : job.dialect.ending name = []
  · rw [if_pos none]
    refine ⟨{}, [], (Edits.append_empty _).symm, ?_, ?_, rfl, [], (List.append_nil _).symm, by simp⟩
    · have kept := Edits.Rewrites.kept atStop atStop (Nat.le_refl _)
      rwa [Text.slice_self] at kept
    · rw [written?_singleton, Part.written?, if_pos none]
  · rw [if_neg none]
    refine ⟨_, _, Edits.insert_eq_append .., .putOne atStop _, ?_, rfl, [], (List.append_nil _).symm, by simp⟩
    rw [written?_singleton, Part.written?, if_neg none]
    rfl

/-- What closes statements is put at one place in the order given. -/
theorem Covers.closings {stop : Nat} (atStop : job.resource.source.IsBoundary stop) (names : List Text) :
    Covers job w (((names.map job.dialect.ending).filter (· ≠ [])).foldl
      (fun w code => w.place stop 0 code) w) stop stop (names.map Part.closing) := by
  induction names generalizing w with
  | nil =>
    have kept := Edits.Rewrites.kept atStop atStop (Nat.le_refl _)
    rw [Text.slice_self] at kept
    exact ⟨{}, [], (Edits.append_empty _).symm, kept, .nil⟩
  | cons name names ih =>
    have first := Covers.closing (w := w) atStop name
    by_cases none : job.dialect.ending name = []
    · rw [if_pos none] at first
      rw [List.map_cons, List.filter_cons_of_neg (by simpa using none)]
      exact first.trans ih
    · rw [if_neg none] at first
      rw [List.map_cons, List.filter_cons_of_pos (by simpa using none)]
      exact first.trans ih

namespace Walk

theorem statementAttributes_ok {tag : Tag} {statements : List (DirectiveKind × Attribute)}
    (h : statementAttributes job tag statements w = .ok w') : ∃ puts : List Insertion,
      (∀ insertion ∈ puts, insertion.position = tag.span.start) ∧
      w'.edits = w.edits ++ ⟨statements.map fun statement => statement.2.reach, puts⟩ ∧
      Writes job w w' (statements.map fun statement =>
        .statement statement.2.reach.length (statement.2.statement statement.1))
        (puts.flatMap Insertion.text) := by
  induction statements generalizing w with
  | nil =>
    obtain rfl := Except.ok.inj h
    exact ⟨[], fun _ member => absurd member List.not_mem_nil, (Edits.append_empty _).symm, .nil⟩
  | cons statement rest ih =>
    obtain ⟨kind, a⟩ := statement
    obtain ⟨w2, first, h⟩ := ok_of_bind h
    obtain ⟨⟨code, w1⟩, coded, placed⟩ := ok_of_bind first
    obtain ⟨writes, edits⟩ := statement_ok a.reach.length coded
    obtain rfl := Except.ok.inj placed
    obtain ⟨puts, here, edits', writes'⟩ := ih h
    refine ⟨⟨tag.span.start, marker a.reach.length code⟩ :: puts, ?_, ?_, ?_⟩
    · intro insertion member
      rcases List.mem_cons.mp member with rfl | member
      · rfl
      · exact here insertion member
    · rw [edits', edits_replaced, edits, Edits.append_assoc]
      rfl
    · exact Writes.trans (writes.edited _ _) writes'

theorem elementMacro_ok {tag : Tag} {stop : Nat} {declaration : Attribute}
    (h : w.elementMacro job tag stop declaration = .ok w')
    (atStart : job.resource.source.IsBoundary tag.span.start)
    (atStop : job.resource.source.IsBoundary stop) (forward : tag.span.start ≤ stop) :
    Covers job w w' tag.span.start stop
      [.binding (stop - tag.span.start) declaration.name (declaration.value.getD [])] := by
  obtain ⟨head, read, h⟩ := ok_of_bind h
  obtain ⟨⟨code, w1⟩, registered, placed⟩ := ok_of_bind h
  obtain ⟨writes, edits⟩ := register_ok (stop - tag.span.start) (macroHead_ok read) registered
  obtain rfl := Except.ok.inj placed
  have covers : Covers job w ((w1.place tag.span.start _ code).remove ⟨tag.span.start, stop⟩) _ _ _ :=
    .replaced writes edits atStart atStop forward (Or.inl rfl)
  exact covers

/-- The comments of a macro go with what stands between them. -/
theorem runMacro_ok {opened : OpenMacro} {closing : Span}
    (h : (w.remove opened.comment).runMacro job opened closing = .ok w')
    (atStart : job.resource.source.IsBoundary opened.comment.start)
    (atRun : job.resource.source.IsBoundary opened.comment.stop)
    (atClosing : job.resource.source.IsBoundary closing.start)
    (atStop : job.resource.source.IsBoundary closing.stop)
    (forward : opened.comment.start ≤ opened.comment.stop) (between : opened.comment.stop ≤ closing.start)
    (forward' : closing.start ≤ closing.stop) :
    Covers job w w' opened.comment.start closing.stop
      [.binding (closing.stop - opened.comment.start) opened.directive opened.value] := by
  obtain ⟨head, read, h⟩ := ok_of_bind h
  obtain ⟨⟨code, w1⟩, registered, placed⟩ := ok_of_bind h
  obtain ⟨writes, edits⟩ := register_ok (closing.stop - opened.comment.start) (macroHead_ok read) registered
  obtain rfl := Except.ok.inj placed
  let code_text := marker (closing.stop - opened.comment.start) code
  refine ⟨⟨[opened.comment, ⟨opened.comment.stop, closing.start⟩, closing],
    [⟨opened.comment.start, code_text⟩]⟩, code_text, ?_, ?_, writes.edited w.edits _⟩
  · show ((w1.edits.remove _).insert _ _).remove _ = _
    rw [edits]
    show (((w.edits.remove _).remove _).insert _ _).remove _ = _
    simp only [Edits.remove_eq_append, Edits.insert_eq_append, Edits.append_assoc]
    rfl
  · have all := (((Edits.Rewrites.putOne atStart code_text).append
      (.removed atStart atRun forward)).append (.removed atRun atClosing between)).append
      (.removed atClosing atStop forward')
    rw [List.append_nil, List.append_nil, List.append_nil] at all
    exact all

/-- An open macro gives way to the next one. -/
def gaveWay (job : Job Compiled) (w : Walk Compiled) (opened : Option OpenMacro) (next : OpenMacro) :
    Walk Compiled :=
  match opened with
  | none => w
  | some previous => w.log (.superseded job.resource.name previous.value next.value)

/-- A comment is treated as what it comes to. -/
theorem comment_eq (opened : Option OpenMacro) (span : Span) : w.comment job opened span =
    match commentRole job.names job.resource.source opened span with
    | .text => .ok (opened, w)
    | .statement directive => do
      let (code, w) ← w.statement job directive
      return (none, (w.place span.start span.length code).remove span)
    | .ending name => .ok (none, (w.counted.place span.stop span.length (job.dialect.ending name)).remove span)
    | .opensMacro found => .ok (some found, (gaveWay job w opened found).remove span)
    | .closesMacro found => (w.runMacro job found span).map fun w => (none, w) := by
  unfold comment commentRole
  cases CommentDirective.read? span.start (job.resource.source.at span) with
  | none => rfl
  | some found =>
    simp only
    cases job.names.kindOf? found.name with
    | none => cases opened <;> rfl
    | some kind =>
      cases opened with
      | none => cases kind <;> rfl
      | some opened =>
        cases kind with
        | close =>
          simp only
          by_cases own : found.value.trim = ("macro" : Text)
          · rw [if_pos own, if_pos own]
          · rw [if_neg own, if_neg own]
        | _ => rfl

theorem comment_ok {opened next : Option OpenMacro} {span : Span}
    (h : w.comment job opened span = .ok (next, w')) :
    match commentRole job.names job.resource.source opened span with
    | .text => next = opened ∧ w' = w
    | .statement directive => next = none ∧ ∃ code w1,
      w.statement job directive = .ok (code, w1) ∧ w' = (w1.place span.start span.length code).remove span
    | .ending name => next = none ∧
      w' = (w.counted.place span.stop span.length (job.dialect.ending name)).remove span
    | .opensMacro found => next = some found ∧ w' = (gaveWay job w opened found).remove span
    | .closesMacro found => next = none ∧ w.runMacro job found span = .ok w' := by
  rw [comment_eq] at h
  cases role : commentRole job.names job.resource.source opened span with
  | statement directive =>
    rw [role] at h
    obtain ⟨⟨code, w1⟩, coded, eq⟩ := ok_of_bind h
    obtain ⟨rfl, rfl⟩ := Prod.mk.inj (Except.ok.inj eq)
    exact ⟨rfl, code, w1, coded, rfl⟩
  | closesMacro found =>
    rw [role] at h
    obtain ⟨w1, ran, eq⟩ := ok_of_map h
    obtain ⟨rfl, rfl⟩ := Prod.mk.inj eq
    exact ⟨rfl, ran⟩
  | _ =>
    rw [role] at h
    obtain ⟨rfl, rfl⟩ := Prod.mk.inj (Except.ok.inj h)
    exact ⟨rfl, rfl⟩

end Walk

/-- An element outside of macros: its statements come in front of it, its content is walked through,
and what closes the statements comes where it ends. -/
theorem Covers.element {tag : Tag} {stop : Nat} {children : List Node} {next : Option OpenMacro}
    (h : Walk.node job none w (.element tag stop children) = .ok (next, w'))
    (atStart : job.resource.source.IsBoundary tag.span.start)
    (attributes : AttributesPlaced job.resource.source tag.span.stop tag.span.start tag.attributes)
    (atTag : job.resource.source.IsBoundary tag.span.stop)
    (atStop : job.resource.source.IsBoundary stop) (forward : tag.span.stop ≤ stop)
    (content : ∀ w w', Walk.siblings job none w children = .ok w' → Covers job w w' tag.span.stop stop
      (layout job.names job.resource.source tag.span.stop stop none children)) :
    next = none ∧ Covers job w w' tag.span.start stop
      ((Node.element tag stop children).layout job.names job.resource.source) := by
  have inside := attributes.le
  rw [Walk.node] at h
  simp only [Option.isSome_none, Bool.false_eq_true, if_false] at h
  rw [Node.layout]
  cases declared : Walk.declarationOf? job.names tag with
  | some declaration =>
    rw [declared] at h
    obtain ⟨w1, macro_ok, eq⟩ := ok_of_bind h
    obtain ⟨rfl, rfl⟩ := Prod.mk.inj (Except.ok.inj eq)
    exact ⟨rfl, Walk.elementMacro_ok macro_ok atStart atStop (by omega)⟩
  | none =>
    rw [declared] at h
    obtain ⟨w1, statements_ok, h⟩ := ok_of_bind h
    obtain ⟨w2, content_ok, eq⟩ := ok_of_bind h
    obtain ⟨rfl, rfl⟩ := Prod.mk.inj (Except.ok.inj eq)
    obtain ⟨puts, here, edits, writes⟩ := Walk.statementAttributes_ok statements_ok
    obtain ⟨text, rewrites, writes'⟩ := (attributes.sublist (statementsOf_sublist job.names tag)).rewrites
      (w := w1) atStart atTag
    -- all code in front of the tag, and then the tag
    have opening : Covers job w w1 tag.span.start tag.span.stop
        (((Walk.statementsOf job.names tag).map fun statement =>
            Part.statement statement.2.reach.length (statement.2.statement statement.1)) ++
          tagLayout tag.span.start tag.span.stop ((Walk.statementsOf job.names tag).map Prod.snd)) := by
      refine ⟨_, _, ?_, (Edits.Rewrites.put atStart here).append rewrites, writes.trans writes'⟩
      rw [← Edits.mk_eq_append, edits, List.map_map]
      rfl
    have closed := Covers.closings (w := w2) atStop
      ((Walk.statementsOf job.names tag).map fun statement => statement.2.name).reverse
    have code_reversed : (((Walk.statementsOf job.names tag).map fun statement =>
        statement.2.name).reverse.map job.dialect.ending).filter (· ≠ []) = Walk.endings job tag := by
      rw [Walk.endings, List.map_reverse, List.filter_reverse, List.map_map]
      rfl
    rw [code_reversed, List.map_reverse, List.map_map, Function.comp_def] at closed
    exact ⟨rfl, (opening.trans (content _ _ content_ok)).trans closed⟩

/-- A macro comment that gives way to another is left out and leaves an event. -/
theorem Covers.dropped {previous : OpenMacro} (next : OpenMacro)
    (atStart : job.resource.source.IsBoundary previous.comment.start)
    (atStop : job.resource.source.IsBoundary previous.comment.stop)
    (forward : previous.comment.start ≤ previous.comment.stop) :
    Covers job w (Walk.gaveWay job (w.remove previous.comment) (some previous) next)
      previous.comment.start previous.comment.stop [.dropped previous.comment] := by
  refine ⟨_, [], Edits.remove_eq_append .., .removed atStart atStop forward, written?_singleton .., rfl, _,
    rfl, ?_⟩
  exact fun _ _ => ⟨previous.value, next.value, List.mem_singleton_self _⟩

section

variable {cursor hi : Nat} {span : Span} {rest : List Node}

/-- A comment where no macro is open, in front of nodes that are walked through as they are laid out from
wherever the comment leaves off. -/
theorem Covers.comment (h : Walk.siblings job none w (.comment span :: rest) = .ok w')
    (atCursor : job.resource.source.IsBoundary cursor) (before : cursor ≤ span.start)
    (atStart : job.resource.source.IsBoundary span.start) (atStop : job.resource.source.IsBoundary span.stop)
    (forward : span.start ≤ span.stop)
    (passed : ∀ w w', Walk.siblings job none w rest = .ok w' →
      Covers job w w' cursor hi (layout job.names job.resource.source cursor hi none rest))
    (others : ∀ w w', Walk.siblings job none w rest = .ok w' →
      Covers job w w' span.stop hi (layout job.names job.resource.source span.stop hi none rest))
    (opens : ∀ next : OpenMacro, next.comment = span → ∀ w w',
      Walk.siblings job (some next) (w.remove span) rest = .ok w' →
        Covers job w w' span.start hi (layout job.names job.resource.source span.stop hi (some next) rest)) :
    Covers job w w' cursor hi (layout job.names job.resource.source cursor hi none (.comment span :: rest)) := by
  rw [Walk.siblings, Walk.node] at h
  obtain ⟨⟨next, w1⟩, own, after⟩ := ok_of_bind h
  have own := Walk.comment_ok own
  have known := commentRole_ok job.names job.resource.source none span
  have inFront := Covers.kept (w := w) atCursor atStart before
  rw [layout]
  cases role : commentRole job.names job.resource.source none span with
  | text =>
    rw [role] at own
    obtain ⟨rfl, rfl⟩ := own
    exact passed _ _ after
  | statement directive =>
    rw [role] at own
    obtain ⟨rfl, code, w2, coded, rfl⟩ := own
    obtain ⟨writes, edits⟩ := Walk.statement_ok span.length coded
    have replaced := Covers.replaced writes edits atStart atStop forward (Or.inl rfl)
    exact (inFront.trans replaced).trans (others _ _ after)
  | ending name =>
    rw [role] at own
    obtain ⟨rfl, rfl⟩ := own
    have replaced := Covers.replaced (Writes.ending (w := w) span.length name) rfl
      atStart atStop forward (Or.inr rfl)
    exact (inFront.trans replaced).trans (others _ _ after)
  | opensMacro found =>
    rw [role] at own known
    obtain ⟨rfl, rfl⟩ := own
    exact inFront.trans (opens found known _ _ after)
  | closesMacro found =>
    rw [role] at known
    simp at known

/-- A comment inside a macro. Where it begins another macro, the first one leaves nothing but an event. -/
theorem Covers.comment_opened {opened : OpenMacro}
    (h : Walk.siblings job (some opened) (w.remove opened.comment) (.comment span :: rest) = .ok w')
    (atComment : job.resource.source.IsBoundary opened.comment.start)
    (atCursor : job.resource.source.IsBoundary opened.comment.stop)
    (inside : opened.comment.start ≤ opened.comment.stop) (before : opened.comment.stop ≤ span.start)
    (atStart : job.resource.source.IsBoundary span.start) (atStop : job.resource.source.IsBoundary span.stop)
    (forward : span.start ≤ span.stop)
    (passed : ∀ w w', Walk.siblings job (some opened) (w.remove opened.comment) rest = .ok w' →
      Covers job w w' opened.comment.start hi
        (layout job.names job.resource.source opened.comment.stop hi (some opened) rest))
    (others : ∀ w w', Walk.siblings job none w rest = .ok w' →
      Covers job w w' span.stop hi (layout job.names job.resource.source span.stop hi none rest))
    (opens : ∀ next : OpenMacro, next.comment = span → ∀ w w',
      Walk.siblings job (some next) (w.remove span) rest = .ok w' →
        Covers job w w' span.start hi (layout job.names job.resource.source span.stop hi (some next) rest)) :
    Covers job w w' opened.comment.start hi
      (layout job.names job.resource.source opened.comment.stop hi (some opened) (.comment span :: rest)) := by
  rw [Walk.siblings, Walk.node] at h
  obtain ⟨⟨next, w1⟩, own, after⟩ := ok_of_bind h
  have own := Walk.comment_ok own
  have known := commentRole_ok job.names job.resource.source (some opened) span
  rw [layout]
  cases role : commentRole job.names job.resource.source (some opened) span with
  | text =>
    rw [role] at own
    obtain ⟨rfl, rfl⟩ := own
    exact passed _ _ after
  | statement directive =>
    rw [role] at known
    simp at known
  | ending name =>
    rw [role] at known
    simp at known
  | opensMacro found =>
    rw [role] at own known
    obtain ⟨rfl, rfl⟩ := own
    have dropped := Covers.dropped (w := w) found atComment atCursor inside
    have between := Covers.kept
      (w := Walk.gaveWay job (w.remove opened.comment) (some opened) found) atCursor atStart before
    exact (dropped.trans between).trans (opens found known _ _ after)
  | closesMacro found =>
    rw [role] at own known
    obtain rfl := Option.some.inj known
    obtain ⟨rfl, ran⟩ := own
    have covers := Walk.runMacro_ok ran atComment atCursor atStart atStop inside before forward
    exact covers.trans (others _ _ after)

end

/-- Nodes in a row are walked through as they are laid out. While a macro is open, the walk has come
to where the macro comment begins, and the comment has been left out. -/
theorem Placed.covers {lo hi : Nat} {nodes : List Node} (placed : Placed job.resource.source lo hi nodes)
    (atHi : job.resource.source.IsBoundary hi) :
    (∀ cursor w w', Walk.siblings job none w nodes = .ok w' → cursor ≤ lo →
      job.resource.source.IsBoundary cursor → Covers job w w' cursor hi
        (layout job.names job.resource.source cursor hi none nodes)) ∧
    (∀ (opened : OpenMacro) w w', Walk.siblings job (some opened) (w.remove opened.comment) nodes = .ok w' →
      opened.comment.start ≤ opened.comment.stop → opened.comment.stop ≤ lo →
      job.resource.source.IsBoundary opened.comment.start →
      job.resource.source.IsBoundary opened.comment.stop → Covers job w w' opened.comment.start hi
        (layout job.names job.resource.source opened.comment.stop hi (some opened) nodes)) := by
  induction placed with
  | nil less =>
    constructor
    · intro cursor w w' h before atCursor
      obtain rfl := Except.ok.inj h
      exact .kept atCursor atHi (by omega)
    · intro opened w w' h
      simp [Walk.siblings, Walk.fail] at h
  | @comment lo hi span rest lower atStart forward atStop _ ih =>
    obtain ⟨ihNone, ihSome⟩ := ih atHi
    have others (w w' : Walk Compiled) (after : Walk.siblings job none w rest = .ok w') :
        Covers job w w' span.stop hi (layout job.names job.resource.source span.stop hi none rest) :=
      ihNone span.stop w w' after (Nat.le_refl _) atStop
    have opens (next : OpenMacro) (same : next.comment = span) (w w' : Walk Compiled)
        (after : Walk.siblings job (some next) (w.remove span) rest = .ok w') :
        Covers job w w' span.start hi (layout job.names job.resource.source span.stop hi (some next) rest) := by
      subst same
      exact ihSome next w w' after forward (Nat.le_refl _) atStart atStop
    constructor
    · intro cursor w w' h before atCursor
      refine .comment h atCursor (by omega) atStart atStop forward (fun w w' after => ?_) others opens
      exact ihNone cursor w w' after (by omega) atCursor
    · intro opened w w' h inside before atComment atCursor
      refine .comment_opened h atComment atCursor inside (by omega) atStart atStop forward
        (fun w w' after => ?_) others opens
      exact ihSome opened w w' after inside (by omega) atComment atCursor
  | @element lo hi stop tag children rest lower atStart attributes atTag content atStop _ ihContent ih =>
    obtain ⟨ihNone, ihSome⟩ := ih atHi
    have inside := content.le
    have inside' := attributes.le
    constructor
    · intro cursor w w' h before atCursor
      rw [Walk.siblings] at h
      obtain ⟨⟨next, w1⟩, own, others⟩ := ok_of_bind h
      obtain ⟨rfl, covers⟩ := Covers.element own atStart attributes atTag atStop inside fun w w' h =>
        (ihContent atStop).1 tag.span.stop w w' h (Nat.le_refl _) atTag
      have inFront := Covers.kept (w := w) atCursor atStart (by omega)
      exact (inFront.trans covers).trans (ihNone stop _ _ others (Nat.le_refl _) atStop)
    · intro opened w w' h forward' before atComment atCursor
      rw [Walk.siblings, Walk.node] at h
      exact ihSome opened _ _ h forward' (by omega) atComment atCursor

theorem Covers.document {parts : List Part}
    (covers : Covers job {} w 0 job.resource.source.byteSize parts) :
    written? job.dialect job.resource.source {} parts = some (w.edits.apply job.resource.source, w.symbols) := by
  obtain ⟨made, text, edits, rewrites, writes⟩ := covers
  have all : w.edits = made := edits
  rw [all, rewrites.apply]
  exact writes.written

/-- A source that has been parsed was walked through from one end to the other. -/
theorem Parser.covers {parser : Parser Compiled} {stream : Bool} {depth : Nat} {resource : Resource}
    {events : List Event} {template : ParsedTemplate Compiled}
    (parsed : parser.parseWithin stream depth resource = (events, .ok template)) :
    ∃ job : Job Compiled, ∃ w, job.dialect = parser.dialect ∧ job.resource = resource ∧
      Covers job {} w 0 resource.source.byteSize
        (layout parser.names resource.source 0 resource.source.byteSize none resource.source.nodes) ∧
      template.code = w.edits.apply resource.source ∧ template.symbols = w.symbols ∧
      template.directives = w.directives ∧ w.events ⊆ events := by
  cases depth with
  | zero => simp [parseWithin] at parsed
  | succ depth =>
    unfold parseWithin at parsed
    simp only at parsed
    split at parsed
    · simp at parsed
    · next w walked =>
      obtain ⟨rfl, ok⟩ := Prod.mk.inj parsed
      obtain rfl := Except.ok.inj ok
      have covers := ((placed_nodes resource.source).covers (Text.isBoundary_byteSize _)).1 0 _ _ walked
        (Nat.le_refl _) (Text.isBoundary_zero _)
      exact ⟨_, w, rfl, rfl, covers, rfl, rfl, rfl, List.subset_append_left ..⟩

/-- The rewritten document is what the tree of the source reads as, part by part: text between
directives stays as it is, and where directives stood there is their code. -/
theorem code_eq_layout {parser : Parser Compiled} {stream : Bool} {resource : Resource}
    {events : List Event} {template : ParsedTemplate Compiled}
    (parsed : parser.parse stream resource = (events, .ok template)) :
    written? parser.dialect resource.source {}
        (layout parser.names resource.source 0 resource.source.byteSize none resource.source.nodes) =
      some (template.code, template.symbols) := by
  obtain ⟨job, w, dialect, rfl, covers, code, symbols, _, _⟩ := parser.covers parsed
  rw [code, symbols, ← dialect]
  exact covers.document

/-- A parser for which the value of a statement is its code, and its name the code that closes it. -/
def Parser.echo : Parser Unit where
  names := .default
  dialect := ⟨fun directive symbols => .ok (directive.value, symbols), id, id⟩
  compiler := ⟨fun _ => .ok ()⟩

/-- Two statements on one element, an end of an element where a comment begins, and a macro comment
that gives way to another. -/
theorem code_eq_layout_of_list :
    let source : Text := "<ul><li if='a' foreach=b>x</li><!-- macro='m' -->y<!-- macro='n' --><i/><!-- end='macro' --></ul>"
    let resource : Resource := { name := "list", source }
    ∃ events template, Parser.echo.parse false resource = (events, .ok template) ∧
      written? Parser.echo.dialect source {}
          (layout Parser.echo.names source 0 source.byteSize none source.nodes) =
        some (template.code, template.symbols) ∧
      template.code = ("<ul>\x027:a\x03\x0210:b\x03<li>x</li>\x020:foreach\x03\x020:if\x03y\x0242:n\x03</ul>" : Text) := by
  intro source resource
  have succeeds : (Parser.echo.parse false resource).2.isOk = true := by decide +kernel
  have written : (written? Parser.echo.dialect source {}
      (layout Parser.echo.names source 0 source.byteSize none source.nodes)).map Prod.fst =
      some ("<ul>\x027:a\x03\x0210:b\x03<li>x</li>\x020:foreach\x03\x020:if\x03y\x0242:n\x03</ul>" : Text) := by
    decide +kernel
  cases parsed : Parser.echo.parse false resource with
  | mk events result =>
    cases result with
    | error e => simp [parsed, Except.isOk, Except.toBool] at succeeds
    | ok template =>
      have all := code_eq_layout parsed
      rw [all] at written
      exact ⟨events, template, rfl, all, Option.some.inj written⟩

end MarkupTemplates
