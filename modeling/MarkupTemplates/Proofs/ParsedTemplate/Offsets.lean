import MarkupTemplates.Proofs.ParsedTemplate.Positions
import MarkupTemplates.Proofs.ParsedTemplate.StatementPlaces
import MarkupTemplates.Proofs.ParsedTemplate.Unmarked

namespace MarkupTemplates

/-- The bytes of a statement that stands behind byte `p`. -/
def Part.early (p : Nat) : Part → Nat
  | statement length directive => if p < directive.start then length else 0
  | _ => 0

/-- The bytes of a macro comment that has gone without any code in its place. -/
def Part.lost : Part → Nat
  | dropped comment => comment.length
  | _ => 0

/-- The bytes of statements behind byte `p` whose code is among parts in front of it. -/
def earlyIn (p : Nat) (parts : List Part) : Nat := (parts.map (Part.early p)).sum

/-- The bytes of the macro comments that have gone from among the parts. -/
def lostIn (parts : List Part) : Nat := (parts.map Part.lost).sum

theorem earlyIn_append (p : Nat) (first second : List Part) :
    earlyIn p (first ++ second) = earlyIn p first + earlyIn p second := by
  rw [earlyIn, List.map_append, List.sum_append, earlyIn, earlyIn]

theorem lostIn_append (first second : List Part) : lostIn (first ++ second) = lostIn first + lostIn second := by
  rw [lostIn, List.map_append, List.sum_append, lostIn, lostIn]

theorem append_eq_append_cons {α : Type} {first second before after : List α} {x : α}
    (eq : first ++ second = before ++ x :: after) :
    (∃ inner, first = before ++ x :: inner ∧ after = inner ++ second) ∨
      ∃ inner, before = first ++ inner ∧ second = inner ++ x :: after := by
  rcases List.append_eq_append_iff.mp eq with ⟨inner, rfl, rfl⟩ | ⟨inner, rfl, behind⟩
  · exact .inr ⟨inner, rfl, rfl⟩
  · rcases List.cons_eq_append_iff.mp behind with ⟨rfl, rfl⟩ | ⟨inner, rfl, rfl⟩
    · exact .inr ⟨[], by simp only [List.append_nil], rfl⟩
    · exact .inl ⟨inner, rfl, rfl⟩

/-- Parts between bytes `lo` and `hi` of the source. What is in front of a byte that is kept has as many bytes as
the source has before it, less those of the comments that have gone, and with those of the statements behind it
whose code is there already. -/
structure Reckoned (source : Text) (lo hi : Nat) (parts : List Part) : Prop where
  total : lo + lengthOf source parts + lostIn parts = hi
  statements : ∀ length directive, .statement length directive ∈ parts → directive.start ≤ hi
  kept : ∀ before span after, parts = before ++ .kept span :: after → span.Within source ∧
    ∀ p, span.start ≤ p → p < span.stop →
      lo ≤ p ∧ lo + lengthOf source before + lostIn before + (p - span.start) = p + earlyIn p before

namespace Reckoned

variable {source : Text} {lo mid hi : Nat} {first second : List Part}

/-- No statement of parts in front of a byte stands behind it. -/
theorem none_early {p : Nat} (reckoned : Reckoned source lo mid first) (behind : mid ≤ p) : earlyIn p first = 0 := by
  rw [earlyIn, List.sum_eq_zero_iff_forall_eq_nat]
  intro n member
  obtain ⟨part, found, rfl⟩ := List.mem_map.mp member
  cases part with
  | statement length directive =>
    have before := reckoned.statements length directive found
    rw [Part.early, if_neg (by omega)]
  | _ => rfl

theorem append (one : Reckoned source lo mid first) (two : Reckoned source mid hi second) :
    Reckoned source lo hi (first ++ second) := by
  have total := one.total
  have total' := two.total
  refine ⟨?_, fun length directive member => ?_, fun before span after split => ?_⟩
  · rw [lengthOf_append, lostIn_append]
    omega
  · rcases List.mem_append.mp member with member | member
    · have := one.statements length directive member
      omega
    · exact two.statements length directive member
  · rcases append_eq_append_cons split with ⟨inner, rfl, _⟩ | ⟨inner, rfl, rest⟩
    · exact one.kept before span inner rfl
    · obtain ⟨within, places⟩ := two.kept inner span after rest
      refine ⟨within, fun p lower upper => ?_⟩
      obtain ⟨above, place⟩ := places p lower upper
      rw [lengthOf_append, lostIn_append, earlyIn_append, one.none_early above]
      omega

theorem text (atLo : source.IsBoundary lo) (atHi : source.IsBoundary hi) (forward : lo ≤ hi) :
    Reckoned source lo hi [.kept ⟨lo, hi⟩] := by
  have size := Text.byteSize_slice atLo atHi forward
  refine ⟨?_, fun length directive member => ?_, fun before span after split => ?_⟩
  · show lo + ((source.slice lo hi).byteSize + 0) + 0 = hi
    omega
  · exact absurd (List.mem_singleton.mp member) nofun
  · cases before with
    | nil =>
      obtain rfl := Part.kept.inj (List.cons.inj split).1
      refine ⟨⟨atLo, atHi, forward⟩, fun p lower upper => ⟨lower, ?_⟩⟩
      show lo + 0 + 0 + (p - lo) = p + 0
      simp only at lower
      omega
    | cons _ before => exact absurd (List.cons.inj split).2 (by simp)

theorem code {part : Part} (noText : ∀ span, part ≠ .kept span) (length : lo + part.length source + part.lost = hi)
    (behind : ∀ length directive, part = .statement length directive → directive.start ≤ hi) :
    Reckoned source lo hi [part] := by
  refine ⟨length, fun length directive member => ?_, fun before span after split => ?_⟩
  · exact behind length directive (List.mem_singleton.mp member).symm
  · cases before with
    | nil => exact absurd (List.cons.inj split).1 (noText span)
    | cons _ before => exact absurd (List.cons.inj split).2 (by simp)

theorem nil : Reckoned source lo lo [] :=
  ⟨rfl, fun _ _ member => absurd member List.not_mem_nil, fun before _ _ split => absurd split (by simp)⟩

theorem closings (list : List (DirectiveKind × Attribute)) :
    Reckoned source lo lo (list.map fun statement => .closing statement.2.name).reverse := by
  rw [← List.map_reverse]
  induction list.reverse with
  | nil => exact .nil
  | cons statement rest ih =>
    have first : Reckoned source lo lo [.closing statement.2.name] :=
      .code (fun _ => Part.noConfusion) rfl fun _ _ => Part.noConfusion
    exact first.append ih

end Reckoned

/-- The code of statements in the attributes of a tag. -/
def codesOf (statements : List (DirectiveKind × Attribute)) : List Part :=
  statements.map fun statement => .statement statement.2.reach.length (statement.2.statement statement.1)

variable {source : Text} {lo hi : Nat} {statements : List (DirectiveKind × Attribute)}

theorem earlyIn_codesOf {p : Nat} (placed : AttributesPlaced source hi lo (statements.map Prod.snd))
    (inFront : p ≤ lo) : earlyIn p (codesOf statements) = lengthOf source (codesOf statements) := by
  induction statements generalizing lo with
  | nil => rfl
  | cons statement rest ih =>
    cases placed with
    | cons lower _ forward _ others =>
      have later : p < statement.2.span.start := Nat.lt_of_le_of_lt inFront lower
      have rest_early := ih others (Nat.le_trans (Nat.le_of_lt later) forward)
      show (if p < statement.2.span.start then _ else 0) + earlyIn p (codesOf rest) = _ + lengthOf source (codesOf rest)
      rw [if_pos later, rest_early]
      rfl

theorem start_le_of_mem_codesOf {length : Nat} {directive : Directive}
    (placed : AttributesPlaced source hi lo (statements.map Prod.snd))
    (member : .statement length directive ∈ codesOf statements) : directive.start ≤ hi := by
  obtain ⟨statement, found, eq⟩ := List.mem_map.mp member
  obtain ⟨_, rfl⟩ := Part.statement.inj eq
  obtain ⟨_, _, _, upper, forward⟩ := placed.of_mem (List.mem_map_of_mem found)
  exact Nat.le_trans forward upper

/-- Text that is left of a start tag stands behind the code of all its statements, those behind it included. -/
theorem tagLayout_places (placed : AttributesPlaced source hi lo (statements.map Prod.snd))
    (atLo : source.IsBoundary lo) (atHi : source.IsBoundary hi) {before after : List Part} {span : Span}
    (split : tagLayout lo hi (statements.map Prod.snd) = before ++ .kept span :: after) :
    span.Within source ∧ ∀ p, span.start ≤ p → p < span.stop → lo ≤ p ∧
      lo + lengthOf source (codesOf statements) + lengthOf source before + (p - span.start) =
        p + earlyIn p (codesOf statements) := by
  induction statements generalizing lo before with
  | nil =>
    have own : Reckoned source lo hi [.kept ⟨lo, hi⟩] := .text atLo atHi placed.le
    cases before with
    | nil => exact own.kept [] span after split
    | cons _ before => exact absurd (List.cons.inj split).2 (by simp)
  | cons statement rest ih =>
    obtain ⟨kind, a⟩ := statement
    cases placed with
    | cons lower atStart forward atStop others =>
      have before_own : lo < a.span.start := lower
      have own : a.span.start ≤ a.span.stop := forward
      have bytes : lengthOf source (codesOf ((kind, a) :: rest)) =
          a.span.stop - (a.span.start - 1) + lengthOf source (codesOf rest) := rfl
      have early (p : Nat) : earlyIn p (codesOf ((kind, a) :: rest)) =
          (if p < a.span.start then a.span.stop - (a.span.start - 1) else 0) + earlyIn p (codesOf rest) := rfl
      have reach : a.reach.start = a.span.start - 1 := rfl
      cases before with
      | nil =>
        obtain rfl := Part.kept.inj (List.cons.inj split).1
        refine ⟨⟨atLo, atStart, by simp only [reach]; omega⟩, fun p lower' upper => ⟨lower', ?_⟩⟩
        simp only [reach] at lower' upper
        rw [early, if_pos (by omega), earlyIn_codesOf others (by simp only; omega), bytes]
        show lo + (_ + lengthOf source (codesOf rest)) + 0 + (p - lo) = _
        omega
      | cons first before =>
        obtain ⟨rfl, later⟩ := List.cons.inj split
        obtain ⟨within, places⟩ := ih others atStop later
        refine ⟨within, fun p lower' upper => ?_⟩
        obtain ⟨above, place⟩ := places p lower' upper
        have size : (source.slice lo a.reach.start).byteSize = a.reach.start - lo :=
          Text.byteSize_slice atLo atStart (by rw [reach]; omega)
        have kept : lengthOf source (.kept ⟨lo, a.reach.start⟩ :: before) =
            (source.slice lo a.reach.start).byteSize + lengthOf source before := rfl
        simp only at above place
        rw [early, if_neg (by omega), bytes, kept, size, reach]
        omega

theorem lostIn_of_kept {parts : List Part} (kept : ∀ part ∈ parts, ∃ span, part = .kept span) :
    lostIn parts = 0 ∧ ∀ p, earlyIn p parts = 0 := by
  constructor
  · rw [lostIn, List.sum_eq_zero_iff_forall_eq_nat]
    rintro _ member
    obtain ⟨part, found, rfl⟩ := List.mem_map.mp member
    obtain ⟨span, rfl⟩ := kept part found
    rfl
  · intro p
    rw [earlyIn, List.sum_eq_zero_iff_forall_eq_nat]
    rintro _ member
    obtain ⟨part, found, rfl⟩ := List.mem_map.mp member
    obtain ⟨span, rfl⟩ := kept part found
    rfl

theorem lostIn_codesOf (statements : List (DirectiveKind × Attribute)) : lostIn (codesOf statements) = 0 := by
  rw [lostIn, List.sum_eq_zero_iff_forall_eq_nat]
  rintro _ member
  obtain ⟨part, found, rfl⟩ := List.mem_map.mp member
  obtain ⟨statement, _, rfl⟩ := List.mem_map.mp found
  rfl

/-- A start tag, with the code of its statements in front. -/
theorem Reckoned.opening (placed : AttributesPlaced source hi lo (statements.map Prod.snd))
    (atLo : source.IsBoundary lo) (atHi : source.IsBoundary hi) :
    Reckoned source lo hi (codesOf statements ++ tagLayout lo hi (statements.map Prod.snd)) := by
  have kept : ∀ part ∈ tagLayout lo hi (statements.map Prod.snd), ∃ span, part = .kept span :=
    fun part member => kept_of_mem_tagLayout member
  refine ⟨?_, fun length directive member => ?_, fun before span after split => ?_⟩
  · have total : lo + lengthOf source (codesOf statements) +
        lengthOf source (tagLayout lo hi (statements.map Prod.snd)) = hi := (lengthOf_opening placed atLo atHi).1
    rw [lengthOf_append, lostIn_append, lostIn_codesOf, (lostIn_of_kept kept).1]
    omega
  · rcases List.mem_append.mp member with member | member
    · exact start_le_of_mem_codesOf placed member
    · obtain ⟨_, eq⟩ := kept _ member
      exact Part.noConfusion eq
  · rcases append_eq_append_cons split with ⟨inner, eq, _⟩ | ⟨inner, rfl, rest⟩
    · have member : .kept span ∈ codesOf statements := by
        rw [eq]
        exact List.mem_append_right _ List.mem_cons_self
      obtain ⟨_, _, eq⟩ := List.mem_map.mp member
      exact Part.noConfusion eq
    · obtain ⟨within, places⟩ := tagLayout_places placed atLo atHi rest
      obtain ⟨nothing, early⟩ := lostIn_of_kept fun part member =>
        kept part (by rw [rest]; exact List.mem_append_left _ member)
      refine ⟨within, fun p lower upper => ?_⟩
      obtain ⟨above, place⟩ := places p lower upper
      rw [lengthOf_append, lostIn_append, lostIn_codesOf, nothing, earlyIn_append, early]
      omega

theorem start_le_of_commentRole {names : DirectiveNames} {opened : Option OpenMacro} {span : Span}
    {directive : Directive} (within : span.Within source)
    (role : commentRole names source opened span = .statement directive) : directive.start ≤ span.stop := by
  obtain ⟨found, read, _, _, _, start⟩ := commentRole_statement role
  obtain ⟨gap, sign, mark, mark', after, split, _, _, nameStart, _⟩ := CommentDirective.read?_parts read
  have size : (source.at span).byteSize = span.stop - span.start :=
    Text.byteSize_slice within.atStart within.atStop within.forward
  have room := congrArg Text.byteSize split
  have forward := within.forward
  simp only [Text.byteSize_append] at room
  omega

section

variable {names : DirectiveNames} {span : Span} {rest : List Node} {cursor : Nat}

theorem Reckoned.dropped {opened : OpenMacro} (within : opened.comment.Within source) :
    Reckoned source opened.comment.start opened.comment.stop [.dropped opened.comment] :=
  .code (fun _ => Part.noConfusion) (Nat.add_sub_of_le within.forward) fun _ _ => Part.noConfusion

/-- A comment where no macro is open, in front of nodes that are in reckoning from wherever the comment leaves off. -/
theorem Reckoned.comment (own : span.Within source) (before : cursor ≤ span.start)
    (atCursor : source.IsBoundary cursor)
    (passed : Reckoned source cursor hi (layout names source cursor hi none rest))
    (others : Reckoned source span.stop hi (layout names source span.stop hi none rest))
    (opens : ∀ next : OpenMacro, next.comment = span →
      Reckoned source span.start hi (layout names source span.stop hi (some next) rest)) :
    Reckoned source cursor hi (layout names source cursor hi none (.comment span :: rest)) := by
  have known := commentRole_ok names source none span
  have inFront : Reckoned source cursor span.start [.kept ⟨cursor, span.start⟩] :=
    .text atCursor own.atStart before
  rw [layout_comment]
  cases role : commentRole names source none span with
  | text => exact passed
  | statement directive =>
    have code : Reckoned source span.start span.stop [.statement span.length directive] := by
      refine .code (fun _ => Part.noConfusion) (Nat.add_sub_of_le own.forward) ?_
      rintro _ _ ⟨⟩
      exact start_le_of_commentRole own role
    exact (inFront.append code).append others
  | ending name =>
    have code : Reckoned source span.start span.stop [.ending span.length name] :=
      .code (fun _ => Part.noConfusion) (Nat.add_sub_of_le own.forward) fun _ _ => Part.noConfusion
    exact (inFront.append code).append others
  | opensMacro next =>
    rw [role] at known
    exact inFront.append (opens next known)
  | closesMacro found =>
    rw [role] at known
    simp at known

/-- A comment inside a macro. Where it begins another macro, the first one leaves nothing behind. -/
theorem Reckoned.comment_opened {opened : OpenMacro} (within : opened.comment.Within source)
    (own : span.Within source) (before : opened.comment.stop ≤ span.start)
    (passed : Reckoned source opened.comment.start hi
      (layout names source opened.comment.stop hi (some opened) rest))
    (others : Reckoned source span.stop hi (layout names source span.stop hi none rest))
    (opens : ∀ next : OpenMacro, next.comment = span →
      Reckoned source span.start hi (layout names source span.stop hi (some next) rest)) :
    Reckoned source opened.comment.start hi
      (layout names source opened.comment.stop hi (some opened) (.comment span :: rest)) := by
  have known := commentRole_ok names source (some opened) span
  rw [layout_comment]
  cases role : commentRole names source (some opened) span with
  | text => exact passed
  | statement directive =>
    rw [role] at known
    simp at known
  | ending name =>
    rw [role] at known
    simp at known
  | opensMacro next =>
    rw [role] at known
    have inFront : Reckoned source opened.comment.stop span.start [.kept ⟨opened.comment.stop, span.start⟩] :=
      .text within.atStop own.atStart before
    exact ((dropped within).append inFront).append (opens next known)
  | closesMacro found =>
    rw [role] at known
    obtain rfl := Option.some.inj known
    have code : Reckoned source opened.comment.start span.stop
        [.binding (span.stop - opened.comment.start) opened.directive opened.value] := by
      have := within.forward
      have := own.forward
      exact .code (fun _ => Part.noConfusion) (Nat.add_sub_of_le (by omega)) fun _ _ => Part.noConfusion
    exact code.append others

end

/-- A row of nodes is laid out in reckoning with the source, from the comment on if a macro is open. -/
theorem Placed.reckoned (names : DirectiveNames) {nodes : List Node} (placed : Placed source lo hi nodes)
    (atHi : source.IsBoundary hi) :
    (∀ cursor, cursor ≤ lo → source.IsBoundary cursor →
      Reckoned source cursor hi (layout names source cursor hi none nodes)) ∧
    ∀ opened : OpenMacro, opened.comment.Within source → opened.comment.stop ≤ lo →
      Reckoned source opened.comment.start hi (layout names source opened.comment.stop hi (some opened) nodes) := by
  induction placed with
  | nil less =>
    constructor
    · intro cursor before atCursor
      exact .text atCursor atHi (Nat.le_trans before less)
    · intro opened within before
      exact (Reckoned.dropped within).append (.text within.atStop atHi (Nat.le_trans before less))
  | @comment lo hi span rest lower atStart forward atStop _ ih =>
    obtain ⟨ihNone, ihSome⟩ := ih atHi
    have own : span.Within source := ⟨atStart, atStop, forward⟩
    have others := ihNone span.stop (Nat.le_refl _) atStop
    have opens (next : OpenMacro) (same : next.comment = span) :
        Reckoned source span.start hi (layout names source span.stop hi (some next) rest) := by
      subst same
      exact ihSome next own (Nat.le_refl _)
    constructor
    · intro cursor before atCursor
      exact .comment own (by omega) atCursor (ihNone cursor (by omega) atCursor) others opens
    · intro opened within before
      exact .comment_opened within own (by omega) (ihSome opened within (by omega)) others opens
  | @element lo hi stop tag children rest lower atStart attributes atTag content atStop _ ihContent ih =>
    obtain ⟨ihNone, ihSome⟩ := ih atHi
    have inside := content.le
    have inside' := attributes.le
    constructor
    · intro cursor before atCursor
      have inFront : Reckoned source cursor tag.span.start [.kept ⟨cursor, tag.span.start⟩] :=
        .text atCursor atStart (Nat.le_trans before lower)
      have own : Reckoned source tag.span.start stop ((Node.element tag stop children).layout names source) := by
        rw [Node.layout]
        cases Walk.declarationOf? names tag with
        | some declaration =>
          exact .code (fun _ => Part.noConfusion) (Nat.add_sub_of_le (by omega)) fun _ _ => Part.noConfusion
        | none =>
          have opening := Reckoned.opening (attributes.sublist (statementsOf_sublist names tag)) atStart atTag
          have below := (ihContent atStop).1 tag.span.stop (Nat.le_refl _) atTag
          exact (opening.append below).append (.closings _)
      rw [layout]
      exact (inFront.append own).append (ihNone stop (Nat.le_refl _) atStop)
    · intro opened within before
      rw [layout]
      exact ihSome opened within (by omega)

/-- Where a byte is kept, what the parts in front of it stand for tells its position but for the statements behind
it in the same start tag, and for macro comments that others have superseded. -/
theorem kept_place {names : DirectiveNames} {before after : List Part} {span : Span} (source : Text)
    (split : layout names source 0 source.byteSize none source.nodes = before ++ .kept span :: after) :
    span.Within source ∧ ∀ p, span.start ≤ p → p < span.stop →
      lengthOf source before + lostIn before + (p - span.start) = p + earlyIn p before := by
  have reckoned := ((placed_nodes source).reckoned names (Text.isBoundary_byteSize _)).1 0 (Nat.le_refl _)
    (Text.isBoundary_zero _)
  obtain ⟨within, places⟩ := reckoned.kept before span after split
  refine ⟨within, fun p lower upper => ?_⟩
  have place := (places p lower upper).2
  rwa [Nat.zero_add] at place

end MarkupTemplates
