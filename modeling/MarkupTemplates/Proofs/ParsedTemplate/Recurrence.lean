import Mathlib.Data.List.Basic
import MarkupTemplates.Proofs.Directive.CommentForm
import MarkupTemplates.Proofs.Markup.Relocation
import MarkupTemplates.Proofs.Markup.Rows
import MarkupTemplates.Proofs.ParsedTemplate.Passages
import MarkupTemplates.Proofs.ParsedTemplate.Rewriting

namespace MarkupTemplates

namespace Text

/-- A text that is divided in two ways is divided into three parts. -/
theorem split_of_le {a b c d : Text} (eq : a ++ b = c ++ d) (le : a.byteSize ≤ c.byteSize) :
    ∃ middle, c = a ++ middle ∧ b = middle ++ d := by
  rcases List.append_eq_append_iff.mp eq with ⟨middle, rfl, rfl⟩ | ⟨middle, rfl, rfl⟩
  · exact ⟨middle, rfl, rfl⟩
  · cases middle with
    | nil => exact ⟨[], by rw [List.append_nil, List.append_nil], rfl⟩
    | cons d middle =>
      have := byteSize_pos (List.cons_ne_nil d middle)
      rw [byteSize_append] at le
      omega

/-- What a source holds between two positions, another one holds so many bytes later. -/
structure Recurs (source other : Text) (shift low high : Nat) : Prop where
  same : ∀ p q, source.IsBoundary p → source.IsBoundary q → low ≤ p → p ≤ q → q ≤ high →
    other.slice (p + shift) (q + shift) = source.slice p q
  boundary : ∀ p, source.IsBoundary p → low ≤ p → p ≤ high → other.IsBoundary (p + shift)

theorem recurs_of_append {before before' common : Text} {shift : Nat}
    (size : before'.byteSize = before.byteSize + shift) (after after' : Text) :
    Recurs (before ++ common ++ after) (before' ++ common ++ after') shift before.byteSize
      (before.byteSize + common.byteSize) := by
  have divided {p q : Nat} (atP : (before ++ common ++ after).IsBoundary p) (atQ : (before ++ common ++ after).IsBoundary q)
      (lower : before.byteSize ≤ p) (ordered : p ≤ q) (upper : q ≤ before.byteSize + common.byteSize) :
      ∃ left middle right, common = left ++ middle ++ right ∧ p = (before ++ left).byteSize ∧
        q = (before ++ left).byteSize + middle.byteSize := by
    obtain ⟨first, middle, last, eq, rfl, rfl⟩ := atP.split atQ ordered
    have split : before ++ (common ++ after) = first ++ (middle ++ last) := by
      rw [← List.append_assoc, eq, List.append_assoc]
    obtain ⟨left, rfl, inner⟩ := split_of_le split lower
    rw [← List.append_assoc] at inner
    obtain ⟨right, rfl, rfl⟩ := split_of_le inner.symm (by
      simp only [byteSize_append] at upper ⊢
      omega)
    exact ⟨left, middle, right, rfl, rfl, rfl⟩
  have place (left : Text) : (before' ++ left).byteSize = (before ++ left).byteSize + shift := by
    simp only [byteSize_append, size]
    omega
  constructor
  · intro p q atP atQ lower ordered upper
    obtain ⟨left, middle, right, rfl, rfl, rfl⟩ := divided atP atQ lower ordered upper
    have one := slice_append (before ++ left) middle (right ++ after)
    have other := slice_append (before' ++ left) middle (right ++ after')
    rw [place, Nat.add_right_comm] at other
    simp only [List.append_assoc] at one other ⊢
    exact other.trans one.symm
  · intro p atP lower upper
    obtain ⟨left, middle, right, rfl, rfl, _⟩ := divided atP atP lower (Nat.le_refl p) upper
    rw [← place]
    exact ⟨before' ++ left, middle ++ right ++ after', by simp only [List.append_assoc], rfl⟩

end Text

def CommentDirective.relocated (move : Nat → Nat) (found : CommentDirective) : CommentDirective :=
  { found with nameStart := move found.nameStart, valueStart := move found.valueStart }

def Directive.relocated (move : Nat → Nat) (directive : Directive) : Directive :=
  { directive with start := move directive.start, valueStart := move directive.valueStart }

def OpenMacro.relocated (move : Nat → Nat) (opened : OpenMacro) : OpenMacro :=
  { opened with comment := opened.comment.relocated move }

def CommentRole.relocated (move : Nat → Nat) : CommentRole → CommentRole
  | text => text
  | statement directive => statement (directive.relocated move)
  | ending name => ending name
  | opensMacro next => opensMacro (next.relocated move)
  | closesMacro opened => closesMacro (opened.relocated move)

/-- What a comment says does not depend on where it stands. -/
theorem CommentDirective.read?_relocated (start shift : Nat) (comment : Text) :
    read? (start + shift) comment = (read? start comment).map (relocated (· + shift)) := by
  cases read : read? start comment with
  | some found =>
    obtain ⟨w, legible, rfl, rfl⟩ := read?_eq_some_iff.mp read
    rw [read?_text legible]
    simp only [Option.map_some, WrittenComment.reading, relocated, Nat.add_right_comm]
  | none =>
    cases other : read? (start + shift) comment with
    | none => rfl
    | some found =>
      obtain ⟨w, legible, rfl, _⟩ := read?_eq_some_iff.mp other
      cases read.symm.trans (read?_text legible start)

/-- Another source has the same text between the positions of a span. -/
theorem Text.Recurs.at {source other : Text} {shift low high : Nat} (recurs : source.Recurs other shift low high)
    {span : Span} (lower : low ≤ span.start) (atStart : source.IsBoundary span.start) (forward : span.start ≤ span.stop)
    (atStop : source.IsBoundary span.stop) (upper : span.stop ≤ high) :
    other.at (span.relocated (· + shift)) = source.at span :=
  recurs.same _ _ atStart atStop lower forward upper

theorem commentRole_relocated (names : DirectiveNames) {source other : Text} {shift : Nat} {span : Span}
    (same : other.at (span.relocated (· + shift)) = source.at span) (opened : Option OpenMacro) :
    commentRole names other (opened.map (OpenMacro.relocated (· + shift))) (span.relocated (· + shift)) =
      (commentRole names source opened span).relocated (· + shift) := by
  unfold commentRole
  rw [same, show (span.relocated (· + shift)).start = span.start + shift from rfl, CommentDirective.read?_relocated]
  cases CommentDirective.read? span.start (source.at span) with
  | none => rfl
  | some found =>
    simp only [Option.map_some]
    rw [show (found.relocated (· + shift)).name = found.name from rfl]
    have closes (opened : OpenMacro) : (if found.value.trim = ("macro" : Text) then
        CommentRole.closesMacro (opened.relocated (· + shift)) else .text) =
          (if found.value.trim = ("macro" : Text) then CommentRole.closesMacro opened else .text).relocated
            (· + shift) := by
      split <;> rfl
    have states (kind : DirectiveKind) : CommentRole.statement
        { kind, name := found.name, value := found.value.trimStart.trimEnd, start := found.nameStart + shift
          valueStart := found.valueStart + shift + (found.value.byteSize - found.value.trimStart.byteSize) } =
        (CommentRole.statement
          { kind, name := found.name, value := found.value.trimStart.trimEnd, start := found.nameStart
            valueStart := found.valueStart + (found.value.byteSize - found.value.trimStart.byteSize) }).relocated
          (· + shift) := by
      simp only [CommentRole.relocated, Directive.relocated, Nat.add_right_comm]
    cases names.kindOf? found.name with
    | none => cases opened <;> rfl
    | some kind =>
      cases opened with
      | none =>
        cases kind with
        | close => rfl
        | defineMacro => rfl
        | _ => exact states _
      | some opened =>
        cases kind with
        | close => exact closes opened
        | _ => rfl

theorem Walk.declarationOf?_relocated (names : DirectiveNames) (move : Nat → Nat) (tag : Tag) :
    declarationOf? names (tag.relocated move) = (declarationOf? names tag).map (Attribute.relocated move) :=
  List.find?_map ..

theorem Walk.statementsOf_relocated (names : DirectiveNames) (move : Nat → Nat) (tag : Tag) :
    statementsOf names (tag.relocated move) =
      (statementsOf names tag).map fun statement => (statement.1, statement.2.relocated move) := by
  rw [statementsOf, statementsOf, List.map_filterMap]
  refine (List.filterMap_map ..).trans (List.filterMap_congr fun a _ => ?_)
  simp only [Function.comp, Attribute.relocated]
  cases names.kindOf? a.name with
  | none => rfl
  | some kind => cases kind <;> rfl

theorem Attribute.reach_relocated (shift : Nat) {a : Attribute} (positive : 0 < a.span.start) :
    (a.relocated (· + shift)).reach = a.reach.relocated (· + shift) := by
  simp only [reach, relocated, Span.relocated, Span.mk.injEq, and_true]
  omega

/-- Attributes that recur in another source stand there as they do here. -/
theorem AttributesPlaced.relocated {source other : Text} {shift low high lo hi : Nat} {attributes : List Attribute}
    (placed : AttributesPlaced source hi lo attributes) (recurs : source.Recurs other shift low high) (lower : low ≤ lo)
    (upper : hi ≤ high) : AttributesPlaced other (hi + shift) (lo + shift)
      (attributes.map (Attribute.relocated (· + shift))) := by
  induction placed with
  | nil less => exact .nil (Nat.add_le_add_right less shift)
  | @cons lo a rest above atStart forward atStop within ih =>
    have inside := within.le
    have front : a.span.start + shift - 1 = a.span.start - 1 + shift := by omega
    refine .cons (Nat.add_lt_add_right above shift) ?_ (Nat.add_le_add_right forward shift)
      (recurs.boundary _ atStop (by omega) (by omega)) (ih (by omega))
    show other.IsBoundary (a.span.start + shift - 1)
    rw [front]
    exact recurs.boundary _ atStart (by omega) (by omega)

namespace MacroBody

variable {source other : Text} {shift low high : Nat}

theorem ofRun_relocated (recurs : source.Recurs other shift low high) {run : Span} (lower : low ≤ run.start)
    (atStart : source.IsBoundary run.start) (forward : run.start ≤ run.stop) (atStop : source.IsBoundary run.stop)
    (upper : run.stop ≤ high) (declaration declaration' : Nat) (var : Text) (parameters : Option Text) :
    (ofRun other (run.relocated (· + shift)) declaration' var parameters).text =
      (ofRun source run declaration var parameters).text := by
  have same := recurs.at lower atStart forward atStop upper
  cases parameters with
  | none => exact same
  | some parameters => exact congrArg (("<!--" : Text) ++ var ++ '=' :: commentQuoted parameters ++ ("-->" : Text) ++ ·) same

theorem ofElement_relocated (recurs : source.Recurs other shift low high) {tag : Tag} {stop : Nat} {a : Attribute}
    (lower : low ≤ tag.span.start) (atStart : source.IsBoundary tag.span.start)
    (attributes : AttributesPlaced source tag.span.stop tag.span.start tag.attributes) (member : a ∈ tag.attributes)
    (atStop : source.IsBoundary stop) (forward : tag.span.stop ≤ stop) (upper : stop ≤ high) (var : Text)
    (parameters : Option Text) :
    (ofElement other (tag.relocated (· + shift)) (stop + shift) (a.relocated (· + shift)) var parameters).text =
      (ofElement source tag stop a var parameters).text := by
  obtain ⟨above, atFront, atBack, within, ordered⟩ := attributes.of_mem member
  have front := recurs.same _ _ atStart atFront lower (by omega) (by omega)
  have back := recurs.same _ _ atBack atStop (by omega) (by omega) upper
  have first : max (a.span.start - 1) tag.span.start = a.span.start - 1 := by omega
  have first' : max (a.span.start + shift - 1) (tag.span.start + shift) = a.span.start - 1 + shift := by omega
  simp only [ofElement, Text.at, Tag.relocated, Attribute.relocated, Span.relocated, first, first', front, back]

end MacroBody

end MarkupTemplates
