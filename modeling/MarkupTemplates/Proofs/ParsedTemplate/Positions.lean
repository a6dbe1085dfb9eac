import MarkupTemplates.Proofs.Markup.Siblings
import MarkupTemplates.Proofs.ParsedTemplate.Rewriting

namespace MarkupTemplates

/-- The byte lies in a start tag that loses statement attributes. -/
def InTrimmedTag (names : DirectiveNames) (roots : List Node) (p : Nat) : Prop :=
  ∃ row tag stop children, Siblings roots row ∧ .element tag stop children ∈ row ∧
    Walk.declarationOf? names tag = none ∧ Walk.statementsOf names tag ≠ [] ∧
    tag.span.start ≤ p ∧ p < tag.span.stop

/-- Parts that begin where `n` bytes are accounted for and end where `m` are. Bytes that are kept come
where their own position is accounted for, unless they are `moved`. -/
def Aligned (source : Text) (moved : Nat → Prop) (n : Nat) : List Part → Nat → Prop
  | [], m => n = m
  | part :: rest, m =>
    (∀ span, part = .kept span → ∀ p, span.start ≤ p → p < span.stop → ¬ moved p →
      n + (p - span.start) = p) ∧ Aligned source moved (n + part.length source) rest m

variable {source : Text} {moved : Nat → Prop}

theorem lengthOf_append (first second : List Part) :
    lengthOf source (first ++ second) = lengthOf source first + lengthOf source second := by
  induction first with
  | nil => exact (Nat.zero_add _).symm
  | cons part first ih => rw [List.cons_append, lengthOf, ih, lengthOf, Nat.add_assoc]

theorem Aligned.append {first second : List Part} {n m k : Nat} (one : Aligned source moved n first m)
    (two : Aligned source moved m second k) : Aligned source moved n (first ++ second) k := by
  induction first generalizing n with
  | nil =>
    obtain rfl : n = m := one
    exact two
  | cons part first ih => exact ⟨one.1, ih one.2⟩

theorem Aligned.kept {lo hi : Nat} (atLo : source.IsBoundary lo) (atHi : source.IsBoundary hi)
    (forward : lo ≤ hi) : Aligned source moved lo [.kept ⟨lo, hi⟩] hi := by
  have size := Text.byteSize_slice atLo atHi forward
  refine ⟨fun span eq p lower _ _ => ?_, ?_⟩
  · obtain rfl := Part.kept.inj eq
    simp only at lower ⊢
    omega
  · show lo + (source.slice lo hi).byteSize = hi
    omega

theorem Aligned.coded {part : Part} {n m : Nat} (noText : ∀ span, part ≠ .kept span)
    (length : n + part.length source = m) : Aligned source moved n [part] m :=
  ⟨fun span eq => absurd eq (noText span), length⟩

/-- Where all text that is kept has moved, only the total counts. -/
theorem Aligned.of_moved {parts : List Part} {n m : Nat}
    (all : ∀ span, .kept span ∈ parts → ∀ p, span.start ≤ p → p < span.stop → moved p)
    (total : n + lengthOf source parts = m) : Aligned source moved n parts m := by
  induction parts generalizing n with
  | nil => exact total
  | cons part rest ih =>
    rw [lengthOf, ← Nat.add_assoc] at total
    refine ⟨fun span eq p lower upper still => ?_, ih (fun span member => all span (List.mem_cons_of_mem _ member))
      total⟩
    exact absurd (all span (by rw [eq]; exact List.mem_cons_self) p lower upper) still

theorem Aligned.total {parts : List Part} {n m : Nat} (aligned : Aligned source moved n parts m) :
    n + lengthOf source parts = m := by
  induction parts generalizing n with
  | nil => exact aligned
  | cons part rest ih =>
    rw [lengthOf, ← Nat.add_assoc]
    exact ih aligned.2

theorem Aligned.position {before after : List Part} {span : Span} {n m p : Nat}
    (aligned : Aligned source moved n (before ++ .kept span :: after) m) (lower : span.start ≤ p)
    (upper : p < span.stop) (still : ¬ moved p) : n + lengthOf source before + (p - span.start) = p := by
  induction before generalizing n with
  | nil => exact aligned.1 span rfl p lower upper still
  | cons part before ih =>
    rw [lengthOf, ← Nat.add_assoc n]
    exact ih aligned.2

/-- What is left of a start tag, and the lengths of what has gone from it. -/
theorem lengthOf_opening {lo hi : Nat} {statements : List (DirectiveKind × Attribute)}
    (placed : AttributesPlaced source hi lo (statements.map Prod.snd)) (atLo : source.IsBoundary lo)
    (atHi : source.IsBoundary hi) :
    lo + lengthOf source (statements.map fun statement =>
          .statement statement.2.reach.length (statement.2.statement statement.1)) +
        lengthOf source (tagLayout lo hi (statements.map Prod.snd)) = hi ∧
      ∀ span, .kept span ∈ tagLayout lo hi (statements.map Prod.snd) → lo ≤ span.start ∧ span.stop ≤ hi := by
  induction statements generalizing lo with
  | nil =>
    have less := placed.le
    have size := Text.byteSize_slice atLo atHi less
    constructor
    · show lo + 0 + ((source.slice lo hi).byteSize + 0) = hi
      omega
    · intro span member
      obtain rfl := Part.kept.inj (List.mem_singleton.mp member)
      exact ⟨Nat.le_refl lo, Nat.le_refl hi⟩
  | cons statement rest ih =>
    obtain ⟨kind, a⟩ := statement
    cases placed with
    | cons lower atStart forward atStop others =>
      obtain ⟨total, inside⟩ := ih others atStop
      have upper := others.le
      simp only at lower atStart forward atStop total inside upper
      have size := Text.byteSize_slice atLo atStart (by omega)
      constructor
      · have own : a.reach.length = a.span.stop - (a.span.start - 1) := rfl
        have reach : a.reach.stop = a.span.stop := rfl
        have before : Part.length source (.kept ⟨lo, a.reach.start⟩) = a.span.start - 1 - lo := size
        simp only [List.map_cons]
        rw [tagLayout, lengthOf, lengthOf, before, reach, Part.length, own]
        omega
      · intro span member
        rcases List.mem_cons.mp member with eq | member
        · obtain rfl := Part.kept.inj eq
          have reach : a.reach.start = a.span.start - 1 := rfl
          exact ⟨Nat.le_refl lo, by simp only [reach]; omega⟩
        · have := inside span member
          omega

variable {names : DirectiveNames} {roots row : List Node}

/-- The code in front of a start tag makes up for the attributes that have gone from it. -/
theorem Aligned.opening {tag : Tag} {stop : Nat} {children : List Node} (siblings : Siblings roots row)
    (member : .element tag stop children ∈ row) (undeclared : Walk.declarationOf? names tag = none)
    (atStart : source.IsBoundary tag.span.start) (atStop : source.IsBoundary tag.span.stop)
    (attributes : AttributesPlaced source tag.span.stop tag.span.start tag.attributes) :
    Aligned source (InTrimmedTag names roots) tag.span.start
      (((Walk.statementsOf names tag).map fun statement =>
          .statement statement.2.reach.length (statement.2.statement statement.1)) ++
        tagLayout tag.span.start tag.span.stop ((Walk.statementsOf names tag).map Prod.snd))
      tag.span.stop := by
  by_cases none : Walk.statementsOf names tag = []
  · rw [none]
    exact .kept atStart atStop attributes.le
  · obtain ⟨total, inside⟩ := lengthOf_opening (attributes.sublist (statementsOf_sublist names tag)) atStart atStop
    refine .of_moved (fun span kept p lower upper => ?_) ?_
    · rcases List.mem_append.mp kept with code | kept
      · obtain ⟨_, _, eq⟩ := List.mem_map.mp code
        exact Part.noConfusion eq
      · have within := inside span kept
        exact ⟨row, tag, stop, children, siblings, member, undeclared, none, by omega, by omega⟩
    · rw [lengthOf_append, ← Nat.add_assoc]
      exact total

theorem Aligned.closings (list : List (DirectiveKind × Attribute)) (n : Nat) :
    Aligned source moved n (list.map fun statement => .closing statement.2.name).reverse n := by
  refine .of_moved (fun span member => ?_) ?_
  · rw [List.mem_reverse] at member
    obtain ⟨_, _, eq⟩ := List.mem_map.mp member
    exact Part.noConfusion eq
  · rw [← List.map_reverse]
    induction list.reverse with
    | nil => rfl
    | cons statement rest ih =>
      rw [List.map_cons, lengthOf, Part.length, Nat.zero_add]
      exact ih

/-- An element outside of macros is in line if its content is. -/
theorem Aligned.element {tag : Tag} {stop : Nat} {children : List Node} (siblings : Siblings roots row)
    (member : .element tag stop children ∈ row) (atStart : source.IsBoundary tag.span.start)
    (attributes : AttributesPlaced source tag.span.stop tag.span.start tag.attributes)
    (atTag : source.IsBoundary tag.span.stop) (inside : tag.span.stop ≤ stop)
    (closed : ∀ comment, .dropped comment ∉ (Node.element tag stop children).layout names source)
    (content : (∀ comment, .dropped comment ∉ layout names source tag.span.stop stop none children) →
      Aligned source (InTrimmedTag names roots) tag.span.stop
        (layout names source tag.span.stop stop none children) stop) :
    Aligned source (InTrimmedTag names roots) tag.span.start
      ((Node.element tag stop children).layout names source) stop := by
  have inside' := attributes.le
  rw [Node.layout] at closed ⊢
  cases declared : Walk.declarationOf? names tag with
  | some declaration => exact .coded (fun _ => Part.noConfusion) (Nat.add_sub_of_le (by omega))
  | none =>
    rw [declared] at closed
    have below := content fun comment member =>
      closed comment (List.mem_append_left _ (List.mem_append_right _ member))
    exact ((Aligned.opening siblings member declared atStart atTag attributes).append below).append
      (.closings _ stop)

section

variable {cursor hi : Nat} {span : Span} {rest : List Node}

/-- A comment where no macro is open, in front of nodes that are in line from wherever the comment leaves off. -/
theorem Aligned.comment (atCursor : source.IsBoundary cursor) (before : cursor ≤ span.start)
    (atStart : source.IsBoundary span.start) (forward : span.start ≤ span.stop)
    (closed : ∀ comment, .dropped comment ∉ layout names source cursor hi none (.comment span :: rest))
    (passed : (∀ comment, .dropped comment ∉ layout names source cursor hi none rest) →
      Aligned source moved cursor (layout names source cursor hi none rest) hi)
    (others : (∀ comment, .dropped comment ∉ layout names source span.stop hi none rest) →
      Aligned source moved span.stop (layout names source span.stop hi none rest) hi)
    (opens : ∀ next : OpenMacro, next.comment = span →
      (∀ comment, .dropped comment ∉ layout names source span.stop hi (some next) rest) →
      Aligned source moved span.start (layout names source span.stop hi (some next) rest) hi) :
    Aligned source moved cursor (layout names source cursor hi none (.comment span :: rest)) hi := by
  have known := commentRole_ok names source none span
  have inFront : Aligned source moved cursor [.kept ⟨cursor, span.start⟩] span.start :=
    .kept atCursor atStart before
  rw [layout] at closed ⊢
  cases role : commentRole names source none span with
  | text =>
    rw [role] at closed
    exact passed closed
  | statement directive =>
    rw [role] at closed
    have code : Aligned source moved span.start [.statement span.length directive] span.stop :=
      .coded (fun _ => Part.noConfusion) (Nat.add_sub_of_le forward)
    exact (inFront.append code).append (others fun comment member =>
      closed comment (List.mem_cons_of_mem _ (List.mem_cons_of_mem _ member)))
  | ending name =>
    rw [role] at closed
    have code : Aligned source moved span.start [.ending span.length name] span.stop :=
      .coded (fun _ => Part.noConfusion) (Nat.add_sub_of_le forward)
    exact (inFront.append code).append (others fun comment member =>
      closed comment (List.mem_cons_of_mem _ (List.mem_cons_of_mem _ member)))
  | opensMacro next =>
    rw [role] at closed known
    exact inFront.append (opens next known fun comment member =>
      closed comment (List.mem_cons_of_mem _ member))
  | closesMacro found =>
    rw [role] at known
    simp at known

/-- A comment inside a macro, which does not open another one. -/
theorem Aligned.comment_opened {opened : OpenMacro} (inside : opened.comment.start ≤ opened.comment.stop)
    (before : opened.comment.stop ≤ span.start) (forward : span.start ≤ span.stop)
    (closed : ∀ comment, .dropped comment ∉
      layout names source opened.comment.stop hi (some opened) (.comment span :: rest))
    (passed : (∀ comment, .dropped comment ∉ layout names source opened.comment.stop hi (some opened) rest) →
      Aligned source moved opened.comment.start
        (layout names source opened.comment.stop hi (some opened) rest) hi)
    (others : (∀ comment, .dropped comment ∉ layout names source span.stop hi none rest) →
      Aligned source moved span.stop (layout names source span.stop hi none rest) hi) :
    Aligned source moved opened.comment.start
      (layout names source opened.comment.stop hi (some opened) (.comment span :: rest)) hi := by
  have known := commentRole_ok names source (some opened) span
  rw [layout] at closed ⊢
  cases role : commentRole names source (some opened) span with
  | text =>
    rw [role] at closed
    exact passed closed
  | statement directive =>
    rw [role] at known
    simp at known
  | ending name =>
    rw [role] at known
    simp at known
  | opensMacro next =>
    rw [role] at closed
    exact absurd List.mem_cons_self (closed opened.comment)
  | closesMacro found =>
    rw [role] at closed known
    obtain rfl := Option.some.inj known
    have code : Aligned source moved opened.comment.start
        [.binding (span.stop - opened.comment.start) opened.directive opened.value] span.stop :=
      .coded (fun _ => Part.noConfusion) (Nat.add_sub_of_le (by omega))
    exact code.append (others fun comment member => closed comment (List.mem_cons_of_mem _ member))

end

/-- Where every macro that is opened is closed, a row of nodes is laid out in line with the source. -/
theorem Placed.aligned {lo hi : Nat} {nodes : List Node} (placed : Placed source lo hi nodes)
    (siblings : Siblings roots row) (among : ∀ node ∈ nodes, node ∈ row) (atHi : source.IsBoundary hi) :
    (∀ cursor, cursor ≤ lo → source.IsBoundary cursor →
      (∀ comment, .dropped comment ∉ layout names source cursor hi none nodes) →
      Aligned source (InTrimmedTag names roots) cursor (layout names source cursor hi none nodes) hi) ∧
    (∀ opened : OpenMacro, opened.comment.start ≤ opened.comment.stop → opened.comment.stop ≤ lo →
      (∀ comment, .dropped comment ∉ layout names source opened.comment.stop hi (some opened) nodes) →
      Aligned source (InTrimmedTag names roots) opened.comment.start
        (layout names source opened.comment.stop hi (some opened) nodes) hi) := by
  induction placed generalizing row with
  | nil less =>
    constructor
    · intro cursor before atCursor _
      exact .kept atCursor atHi (by omega)
    · intro opened _ _ closed
      exact absurd List.mem_cons_self (closed opened.comment)
  | @comment lo hi span rest lower atStart forward atStop _ ih =>
    obtain ⟨ihNone, ihSome⟩ := ih siblings (fun node member => among node (List.mem_cons_of_mem _ member)) atHi
    have others := ihNone span.stop (Nat.le_refl _) atStop
    constructor
    · intro cursor before atCursor closed
      refine .comment atCursor (by omega) atStart forward closed (ihNone cursor (by omega) atCursor) others ?_
      rintro next rfl
      exact ihSome next forward (Nat.le_refl _)
    · intro opened inside before closed
      exact .comment_opened inside (by omega) forward closed (ihSome opened inside (by omega)) others
  | @element lo hi stop tag children rest lower atStart attributes atTag content atStop _ ihContent ih =>
    obtain ⟨ihNone, ihSome⟩ := ih siblings (fun node member => among node (List.mem_cons_of_mem _ member)) atHi
    have member := among _ List.mem_cons_self
    have inside := content.le
    have inside' := attributes.le
    constructor
    · intro cursor before atCursor closed
      have inFront : Aligned source (InTrimmedTag names roots) _ _ _ :=
        .kept atCursor atStart (by omega)
      rw [layout] at closed ⊢
      have own := Aligned.element siblings member atStart attributes atTag inside
        (fun comment member => closed comment (List.mem_append_left _ (List.mem_cons_of_mem _ member)))
        ((ihContent (.children siblings member) (fun _ member => member) atStop).1 tag.span.stop
          (Nat.le_refl _) atTag)
      exact (inFront.append own).append (ihNone stop (Nat.le_refl _) atStop fun comment member =>
        closed comment (List.mem_append_right _ member))
    · intro opened forward' before closed
      rw [layout] at closed ⊢
      exact ihSome opened forward' (by omega) closed

/-- Where no macro comment gives way to another, positions in the source can be told from the document:
what comes before a byte that is kept has as many bytes as the source has before it, be it text or
what code stands for. Only inside a start tag that loses attributes is that not so. All code is counted
but that which closes the statements of attributes. -/
theorem lengths_give_positions {Compiled : Type} {parser : Parser Compiled} {stream : Bool}
    {resource : Resource} {events : List Event} {template : ParsedTemplate Compiled}
    (parsed : parser.parse stream resource = (events, .ok template))
    (closed : ∀ previous value, .superseded resource.name previous value ∉ events) :
    let source := resource.source
    let parts := layout parser.names source 0 source.byteSize none source.nodes
    written? parser.dialect source {} parts = some (template.code, template.symbols) ∧
      (∀ before span after, parts = before ++ .kept span :: after →
        ∀ p, span.start ≤ p → p < span.stop → ¬ InTrimmedTag parser.names source.nodes p →
          lengthOf source before + (p - span.start) = p) ∧
      lengthOf source parts = source.byteSize ∧
      template.directives = parts.countP Part.isDirective := by
  intro source parts
  obtain ⟨job, w, dialect, rfl, covers, code, symbols, directives, logged⟩ := parser.covers parsed
  obtain ⟨_, _, _, _, writes⟩ := id covers
  have none_dropped : ∀ comment, .dropped comment ∉ parts := by
    intro comment member
    obtain ⟨more, own, dropped⟩ := writes.logged
    obtain ⟨previous, value, superseded⟩ := dropped comment member
    have all : w.events = more := own
    exact closed previous value (logged (by rw [all]; exact superseded))
  have aligned := ((placed_nodes source).aligned .roots (fun _ member => member)
    (Text.isBoundary_byteSize _)).1 0 (Nat.le_refl _) (Text.isBoundary_zero _) none_dropped
  refine ⟨?_, ?_, ?_, ?_⟩
  · rw [code, symbols, ← dialect]
    exact covers.document
  · intro before span after split p lower upper outside
    have found : layout parser.names source 0 source.byteSize none source.nodes =
        before ++ .kept span :: after := split
    rw [found] at aligned
    have position := aligned.position lower upper outside
    rwa [Nat.zero_add] at position
  · rw [← aligned.total, Nat.zero_add]
  · rw [directives, writes.counted]
    exact Nat.zero_add _

/-- A tag loses an attribute, an element that is a macro goes with its comments, and a loop ends. -/
theorem lengths_give_positions_around_macro :
    let source : Text := "<p if=a>é<!-- macro='m' --><i/><!-- end='macro' --></p><!-- end='for' -->z"
    let resource : Resource := { name := "t", source }
    let parts := layout Parser.echo.names source 0 source.byteSize none source.nodes
    ∃ events template, Parser.echo.parse false resource = (events, .ok template) ∧
      (∀ previous value, .superseded resource.name previous value ∉ events) ∧
      (∀ before span after, parts = before ++ .kept span :: after →
        ∀ p, span.start ≤ p → p < span.stop → ¬ InTrimmedTag Parser.echo.names source.nodes p →
          lengthOf source before + (p - span.start) = p) ∧
      lengthOf source parts = 75 ∧ template.directives = 3 := by
  intro source resource parts
  have succeeds : (Parser.echo.parse false resource).2.isOk = true := by decide +kernel
  have log : (Parser.echo.parse false resource).1 =
      [.parsed "t#m" 0 0, .extracted "t" "m" none, .parsed "t" 3 1] := by decide +kernel
  have code_count : parts.countP Part.isDirective = 3 := by decide +kernel
  cases parsed : Parser.echo.parse false resource with
  | mk events result =>
    rw [parsed] at log
    obtain rfl : events = _ := log
    have closed : ∀ previous value, .superseded resource.name previous value ∉
        [Event.parsed "t#m" 0 0, .extracted "t" "m" none, .parsed "t" 3 1] := by simp
    cases result with
    | error e => simp [parsed, Except.isOk, Except.toBool] at succeeds
    | ok template =>
      obtain ⟨_, positions, total, directives⟩ := lengths_give_positions parsed closed
      exact ⟨_, template, rfl, closed, positions, total, directives.trans code_count⟩

end MarkupTemplates
