import MarkupTemplates.Proofs.Markup.Rows
import MarkupTemplates.Proofs.ParsedTemplate.Rewriting

namespace MarkupTemplates

/-- What the dialect is asked for: the code of a statement, or the code that closes the statement of
that name. -/
inductive Request where
  | statement (directive : Directive)
  | ending (name : Text)
  deriving DecidableEq, Repr

/-- A stretch of a source that is a directive. -/
structure Passage where
  span : Span
  request : Request
  deriving DecidableEq, Repr

namespace CommentRole

def requests : CommentRole → List Request
  | statement directive => [.statement directive]
  | ending name => [.ending name]
  | _ => []

theorem requests_eq_statement_iff {role : CommentRole} {directive : Directive} :
    role.requests = [.statement directive] ↔ role = .statement directive := by
  cases role <;> simp [requests]

/-- The macro that is open after the comment. -/
def opens? (opened : Option OpenMacro) : CommentRole → Option OpenMacro
  | text => opened
  | opensMacro next => some next
  | _ => none

end CommentRole

def passagesOf (names : DirectiveNames) (tag : Tag) : List Passage :=
  (Walk.statementsOf names tag).map fun statement =>
    ⟨statement.2.span, .statement (statement.2.statement statement.1)⟩

mutual

/-- The directives of an element and of its content, or none if the element is a macro. -/
def Node.passages (names : DirectiveNames) (source : Text) : Node → List Passage
  | .comment _ => []
  | .element tag _ children =>
    match Walk.declarationOf? names tag with
    | some _ => []
    | none => passagesOf names tag ++ passages names source none children

/-- The directives of nodes in a row that count, in the order of the source: no macro is open where
they stand, and no element around them is a macro. -/
def passages (names : DirectiveNames) (source : Text) (opened : Option OpenMacro) :
    List Node → List Passage
  | [] => []
  | node :: rest =>
    match node, opened with
    | .comment span, opened =>
      let role := commentRole names source opened span
      role.requests.map (⟨span, ·⟩) ++ passages names source (role.opens? opened) rest
    | .element .., some opened => passages names source (some opened) rest
    | .element .., none => node.passages names source ++ passages names source none rest

end

/-- What the dialect is asked for to write the part, as far as it is asked about a directive. -/
def Part.request? : Part → Option Request
  | statement _ directive => some (.statement directive)
  | ending _ name => some (.ending name)
  | _ => none

section

variable {names : DirectiveNames} {source : Text}

theorem requests_tagLayout (cursor stop : Nat) (attributes : List Attribute) :
    (tagLayout cursor stop attributes).filterMap Part.request? = [] := by
  induction attributes generalizing cursor with
  | nil => rfl
  | cons a rest ih => exact ih a.reach.stop

theorem requests_closings (statements : List (DirectiveKind × Attribute)) :
    ((statements.map fun statement => Part.closing statement.2.name).reverse).filterMap Part.request? = [] := by
  rw [← List.map_reverse, List.filterMap_map]
  exact List.filterMap_eq_nil_iff.mpr fun _ _ => rfl

theorem layout_comment (cursor stop : Nat) (opened : Option OpenMacro) (span : Span) (rest : List Node) :
    layout names source cursor stop opened (.comment span :: rest) =
      match commentRole names source opened span with
      | .text => layout names source cursor stop opened rest
      | .statement directive =>
        .kept ⟨cursor, span.start⟩ :: .statement span.length directive ::
          layout names source span.stop stop none rest
      | .ending name =>
        .kept ⟨cursor, span.start⟩ :: .ending span.length name ::
          layout names source span.stop stop none rest
      | .opensMacro next =>
        (match opened with
          | none => []
          | some previous => [.dropped previous.comment]) ++
          .kept ⟨cursor, span.start⟩ :: layout names source span.stop stop (some next) rest
      | .closesMacro opened =>
        .binding (span.stop - opened.comment.start) opened.directive opened.value ::
          layout names source span.stop stop none rest := by
  cases opened <;> cases role : commentRole names source _ span <;> simp only [layout, role]

/-- The parts that a document is laid out in ask for each of the directives that count once, in their
order. -/
theorem requests_layout (cursor stop : Nat) (opened : Option OpenMacro) (nodes : List Node) :
    (layout names source cursor stop opened nodes).filterMap Part.request? =
      (passages names source opened nodes).map Passage.request := by
  induction nodes using row_induction generalizing cursor stop opened with
  | nil => cases opened <;> rfl
  | comment span rest ih =>
    rw [layout_comment, passages]
    cases role : commentRole names source opened span with
    | text => exact ih cursor stop opened
    | statement directive => exact congrArg (_ :: ·) (ih span.stop stop none)
    | ending name => exact congrArg (_ :: ·) (ih span.stop stop none)
    | opensMacro next => cases opened <;> exact ih span.stop stop (some next)
    | closesMacro found => exact ih span.stop stop none
  | element tag elementStop children rest ihChildren ih =>
    cases opened with
    | some opened => exact ih cursor stop (some opened)
    | none =>
      rw [layout, passages, List.filterMap_append, List.map_append, ih]
      refine congrArg (· ++ _) ?_
      show ((Node.element tag elementStop children).layout names source).filterMap Part.request? = _
      rw [Node.layout, Node.passages]
      cases Walk.declarationOf? names tag with
      | some declaration => rfl
      | none =>
        simp only [List.filterMap_append, requests_tagLayout, requests_closings, ihChildren, List.append_nil,
          List.map_append, passagesOf, List.map_map, List.filterMap_map]
        refine congrArg (· ++ _) ?_
        exact congrFun List.filterMap_eq_map _

/-- Between two positions, text that is kept stands apart from the passages, and the passages are in
order. -/
structure Clear (lo hi : Nat) (parts : List Part) (list : List Passage) : Prop where
  forward : lo ≤ hi
  kept : ∀ span, .kept span ∈ parts → lo ≤ span.start ∧ span.stop ≤ hi
  passages : ∀ passage ∈ list, lo ≤ passage.span.start ∧ passage.span.stop ≤ hi
  apart : ∀ span, .kept span ∈ parts → ∀ passage ∈ list,
    span.stop ≤ passage.span.start ∨ passage.span.stop ≤ span.start
  ordered : list.Pairwise fun a b => a.span.stop ≤ b.span.start

variable {lo mid hi : Nat} {first second : List Part} {list more : List Passage}

theorem Clear.append (one : Clear lo mid first list) (two : Clear mid hi second more) :
    Clear lo hi (first ++ second) (list ++ more) where
  forward := Nat.le_trans one.forward two.forward
  kept span member := by
    rcases List.mem_append.mp member with member | member
    · exact ⟨(one.kept span member).1, Nat.le_trans (one.kept span member).2 two.forward⟩
    · exact ⟨Nat.le_trans one.forward (two.kept span member).1, (two.kept span member).2⟩
  passages passage member := by
    rcases List.mem_append.mp member with member | member
    · exact ⟨(one.passages passage member).1, Nat.le_trans (one.passages passage member).2 two.forward⟩
    · exact ⟨Nat.le_trans one.forward (two.passages passage member).1, (two.passages passage member).2⟩
  apart span kept passage member := by
    rcases List.mem_append.mp kept with kept | kept <;> rcases List.mem_append.mp member with member | member
    · exact one.apart span kept passage member
    · exact Or.inl (Nat.le_trans (one.kept span kept).2 (two.passages passage member).1)
    · exact Or.inr (Nat.le_trans (one.passages passage member).2 (two.kept span kept).1)
    · exact two.apart span kept passage member
  ordered := List.pairwise_append.mpr ⟨one.ordered, two.ordered, fun a memberA b memberB =>
    Nat.le_trans (one.passages a memberA).2 (two.passages b memberB).1⟩

theorem Clear.kept_text (forward : lo ≤ hi) : Clear lo hi [.kept ⟨lo, hi⟩] [] where
  forward := forward
  kept span member := by
    obtain rfl := Part.kept.inj (List.mem_singleton.mp member)
    exact ⟨Nat.le_refl lo, Nat.le_refl hi⟩
  passages _ member := absurd member List.not_mem_nil
  apart _ _ _ member := absurd member List.not_mem_nil
  ordered := .nil

theorem Clear.code {parts : List Part} (forward : lo ≤ hi) (noText : ∀ span, .kept span ∉ parts) :
    Clear lo hi parts [] where
  forward := forward
  kept span member := absurd member (noText span)
  passages _ member := absurd member List.not_mem_nil
  apart _ _ _ member := absurd member List.not_mem_nil
  ordered := .nil

theorem Clear.passage {parts : List Part} {span : Span} {request : Request}
    (forward : span.start ≤ span.stop) (noText : ∀ span, .kept span ∉ parts) :
    Clear span.start span.stop parts [⟨span, request⟩] where
  forward := forward
  kept span member := absurd member (noText span)
  passages other member := by
    rw [List.mem_singleton.mp member]
    exact ⟨Nat.le_refl _, Nat.le_refl _⟩
  apart span member := absurd member (noText span)
  ordered := List.pairwise_singleton _ _

/-- A tag that loses statement attributes keeps no text of them. -/
theorem AttributesPlaced.clear {statements : List (DirectiveKind × Attribute)}
    (placed : AttributesPlaced source hi lo (statements.map Prod.snd)) :
    Clear lo hi (tagLayout lo hi (statements.map Prod.snd))
      (statements.map fun statement => ⟨statement.2.span, .statement (statement.2.statement statement.1)⟩) := by
  induction statements generalizing lo with
  | nil => exact .kept_text placed.le
  | cons statement rest ih =>
    obtain ⟨kind, a⟩ := statement
    cases placed with
    | cons lower _ forward _ others =>
      simp only at lower forward others
      have before : Clear lo a.reach.start [.kept ⟨lo, a.reach.start⟩] [] := .kept_text (by
        simp only [Attribute.reach]
        omega)
      have blank : Clear a.reach.start a.span.start [] [] := .code (Nat.sub_le _ _) fun _ => List.not_mem_nil
      have own : Clear a.span.start a.span.stop [] [⟨a.span, .statement (a.statement kind)⟩] :=
        .passage forward fun _ => List.not_mem_nil
      exact ((before.append blank).append own).append (ih others)

/-- An element outside of macros keeps no text of its statements if its content keeps none of its own. -/
theorem Clear.element {tag : Tag} {stop : Nat} {children : List Node} (inside : tag.span.stop ≤ stop)
    (attributes : AttributesPlaced source tag.span.stop tag.span.start tag.attributes)
    (content : Clear tag.span.stop stop (layout names source tag.span.stop stop none children)
      (MarkupTemplates.passages names source none children)) :
    Clear tag.span.start stop ((Node.element tag stop children).layout names source)
      ((Node.element tag stop children).passages names source) := by
  rw [Node.layout, Node.passages]
  cases Walk.declarationOf? names tag with
  | some declaration =>
    exact .code (Nat.le_trans attributes.le inside) (by simp)
  | none =>
    have code : Clear tag.span.start tag.span.start ((Walk.statementsOf names tag).map fun statement =>
        .statement statement.2.reach.length (statement.2.statement statement.1)) [] :=
      .code (Nat.le_refl _) (by simp)
    have opening := (attributes.sublist (statementsOf_sublist names tag)).clear
    have closing : Clear stop stop ((Walk.statementsOf names tag).map fun statement =>
        Part.closing statement.2.name).reverse [] := .code (Nat.le_refl _) (by simp)
    have all := ((code.append opening).append content).append closing
    rw [List.append_nil] at all
    exact all

/-- A comment keeps no text of the directive that it may be, in front of nodes that keep none wherever it leaves
off. -/
theorem Clear.comment {cursor : Nat} {span : Span} {rest : List Node} (opened : Option OpenMacro)
    (before : cursor ≤ span.start) (forward : span.start ≤ span.stop)
    (passed : Clear cursor hi (layout names source cursor hi opened rest)
      (MarkupTemplates.passages names source opened rest))
    (others : ∀ next, Clear span.stop hi (layout names source span.stop hi next rest)
      (MarkupTemplates.passages names source next rest)) :
    Clear cursor hi (layout names source cursor hi opened (.comment span :: rest))
      (MarkupTemplates.passages names source opened (.comment span :: rest)) := by
  rw [layout_comment, MarkupTemplates.passages]
  have inFront : Clear cursor span.start [.kept ⟨cursor, span.start⟩] [] := .kept_text before
  cases role : commentRole names source opened span with
  | text => exact passed
  | statement directive =>
    have own : Clear span.start span.stop [.statement span.length directive]
        [⟨span, .statement directive⟩] := .passage forward (by simp)
    exact (inFront.append own).append (others none)
  | ending name =>
    have own : Clear span.start span.stop [.ending span.length name] [⟨span, .ending name⟩] :=
      .passage forward (by simp)
    exact (inFront.append own).append (others none)
  | opensMacro next =>
    have gone : Clear span.start span.stop [] [] := .code forward fun _ => List.not_mem_nil
    have past := (inFront.append gone).append (others (some next))
    cases opened with
    | none => exact past
    | some previous =>
      have dropped : Clear cursor cursor [.dropped previous.comment] [] := .code (Nat.le_refl _) (by simp)
      exact dropped.append past
  | closesMacro found =>
    have own : Clear cursor span.stop
        [.binding (span.stop - found.comment.start) found.directive found.value] [] :=
      .code (by omega) (by simp)
    exact own.append (others none)

/-- Outside of macros no text of a directive is kept. -/
theorem Placed.clear (names : DirectiveNames) {cursor : Nat} {nodes : List Node}
    (placed : Placed source lo hi nodes) (before : cursor ≤ lo) (opened : Option OpenMacro) :
    Clear cursor hi (layout names source cursor hi opened nodes) (MarkupTemplates.passages names source opened nodes) := by
  induction placed generalizing cursor opened with
  | nil less =>
    cases opened with
    | none => exact .kept_text (Nat.le_trans before less)
    | some opened =>
      have dropped : Clear cursor cursor [.dropped opened.comment] [] := .code (Nat.le_refl _) (by simp)
      exact dropped.append (.kept_text (Nat.le_trans before less))
  | @comment lo hi span rest lower _ forward _ _ ih =>
    exact .comment opened (by omega) forward (ih (by omega) opened) (ih (Nat.le_refl span.stop))
  | @element lo hi stop tag children rest lower _ attributes _ content _ _ ihContent ih =>
    cases opened with
    | some opened => exact ih (by have := attributes.le; have := content.le; omega) (some opened)
    | none =>
      have inFront : Clear cursor tag.span.start [.kept ⟨cursor, tag.span.start⟩] [] :=
        .kept_text (Nat.le_trans before lower)
      have own : Clear tag.span.start stop ((Node.element tag stop children).layout names source)
          ((Node.element tag stop children).passages names source) :=
        .element content.le attributes (ihContent (Nat.le_refl _) none)
      rw [layout, MarkupTemplates.passages]
      exact (inFront.append own).append (ih (Nat.le_refl stop) none)

end

end MarkupTemplates
