import Mathlib.Data.Option.Basic
import MarkupTemplates.Proofs.ParsedTemplate.Recurrence

namespace MarkupTemplates

/-- Two documents that differ in nothing but the lengths that their code is marked with. -/
inductive SameButLengths : Text → Text → Prop
  | nil : SameButLengths [] []
  | text {s t : Text} (c : Char) : SameButLengths s t → SameButLengths (c :: s) (c :: t)
  | code {s t : Text} (length length' : Nat) (inner : Text) :
      SameButLengths s t → SameButLengths (marker length inner ++ s) (marker length' inner ++ t)

namespace SameButLengths

theorem refl (t : Text) : SameButLengths t t := by
  induction t with
  | nil => exact .nil
  | cons c t ih => exact ih.text c

theorem append {s t s' t' : Text} (one : SameButLengths s t) (other : SameButLengths s' t') :
    SameButLengths (s ++ s') (t ++ t') := by
  induction one with
  | nil => exact other
  | text c _ ih => exact ih.text c
  | code length length' inner _ ih =>
    rw [List.append_assoc, List.append_assoc]
    exact ih.code length length' inner

theorem marker (length length' : Nat) (inner : Text) :
    SameButLengths (MarkupTemplates.marker length inner) (MarkupTemplates.marker length' inner) := by
  have alone := SameButLengths.nil.code length length' inner
  rwa [List.append_nil, List.append_nil] at alone

end SameButLengths

/-- Both fail, or both give results that are related. -/
def Agree {ε ε' α β : Type} (rel : α → β → Prop) : Except ε α → Except ε' β → Prop
  | .ok a, .ok b => rel a b
  | .error _, .error _ => True
  | _, _ => False

theorem Agree.results {ε ε' α β : Type} {rel : α → β → Prop} {x : Except ε α} {y : Except ε' β} (agree : Agree rel x y) :
    (∃ e e', x = .error e ∧ y = .error e') ∨ ∃ a b, x = .ok a ∧ y = .ok b ∧ rel a b := by
  cases x with
  | error e =>
    cases y with
    | error e' => exact .inl ⟨e, e', rfl, rfl⟩
    | ok b => exact agree.elim
  | ok a =>
    cases y with
    | error e' => exact agree.elim
    | ok b => exact .inr ⟨a, b, rfl, rfl, agree⟩

theorem Agree.bind {ε ε' α β γ δ : Type} {rel : α → β → Prop} {rel' : γ → δ → Prop} {x : Except ε α} {y : Except ε' β}
    {f : α → Except ε γ} {g : β → Except ε' δ} (first : Agree rel x y) (rest : ∀ a b, rel a b → Agree rel' (f a) (g b)) :
    Agree rel' (x >>= f) (y >>= g) := by
  obtain ⟨_, _, rfl, rfl⟩ | ⟨a, b, rfl, rfl, related⟩ := first.results
  · trivial
  · exact rest a b related

theorem Agree.map {ε ε' α β γ δ : Type} {rel : α → β → Prop} {rel' : γ → δ → Prop} {x : Except ε α} {y : Except ε' β}
    {f : α → γ} {g : β → δ} (first : Agree rel x y) (rest : ∀ a b, rel a b → rel' (f a) (g b)) :
    Agree rel' (x.map f) (y.map g) :=
  first.bind fun a b related => rest a b related

theorem Agree.imp {ε ε' α β : Type} {rel rel' : α → β → Prop} {x : Except ε α} {y : Except ε' β} (agree : Agree rel x y)
    (more : ∀ a b, x = .ok a → y = .ok b → rel a b → rel' a b) : Agree rel' x y := by
  obtain ⟨_, _, rfl, rfl⟩ | ⟨a, b, rfl, rfl, related⟩ := agree.results
  · trivial
  · exact more a b rfl rfl related

theorem Agree.of_toOption {ε α : Type} {x y : Except ε α} (same : y.toOption = x.toOption) : Agree Eq x y := by
  cases x with
  | error e =>
    cases y with
    | error e' => trivial
    | ok b => cases same
  | ok a =>
    cases y with
    | error e' => cases same
    | ok b => exact (Option.some.inj same).symm

/-- Where a statement stands makes no difference to whether there is code for it, to the code and to what it declares. -/
def Dialect.Placeless (dialect : Dialect) : Prop :=
  ∀ directive start valueStart symbols, (dialect.statement { directive with start, valueStart } symbols).toOption =
    (dialect.statement directive symbols).toOption

theorem Dialect.Placeless.agree {dialect : Dialect} (placeless : dialect.Placeless) {one other : Directive}
    (kind : other.kind = one.kind) (name : other.name = one.name) (value : other.value = one.value)
    (symbols : SymbolTable) : Agree Eq (dialect.statement one symbols) (dialect.statement other symbols) := by
  have same : (dialect.statement other symbols).toOption = (dialect.statement one symbols).toOption := by
    rw [← placeless one other.start other.valueStart symbols, ← kind, ← name, ← value]
  exact .of_toOption same

/-- What has been written with what is known of names by then, but for lengths. -/
abbrev Alongside : Text × SymbolTable → Text × SymbolTable → Prop := fun a b => SameButLengths a.1 b.1 ∧ a.2 = b.2

/-- A part of one source and a part of another that come to the same. -/
def Part.WrittenAlike (dialect : Dialect) (source other : Text) (part part' : Part) : Prop :=
  ∀ symbols, Option.Rel Alongside (part.written? dialect source symbols) (part'.written? dialect other symbols)

/-- Parts of one source and parts of another that come to the same, all of them together. -/
def WrittenAlike (dialect : Dialect) (source other : Text) (parts parts' : List Part) : Prop :=
  ∀ symbols, Option.Rel Alongside (written? dialect source symbols parts) (written? dialect other symbols parts')

section

variable {dialect : Dialect} {source other : Text}

namespace Part.WrittenAlike

theorem kept {span span' : Span} (same : other.at span' = source.at span) :
    WrittenAlike dialect source other (.kept span) (.kept span') := by
  intro symbols
  rw [written?, written?, same]
  exact .some ⟨.refl _, rfl⟩

theorem statement (placeless : dialect.Placeless) {directive directive' : Directive} (length length' : Nat)
    (kind : directive'.kind = directive.kind) (name : directive'.name = directive.name)
    (value : directive'.value = directive.value) :
    WrittenAlike dialect source other (.statement length directive) (.statement length' directive') := by
  intro symbols
  have same := placeless.agree kind name value symbols
  rw [written?, written?]
  generalize dialect.statement directive symbols = answer at same ⊢
  generalize dialect.statement directive' symbols = answer' at same ⊢
  obtain ⟨_, _, rfl, rfl⟩ | ⟨made, _, rfl, rfl, rfl⟩ := same.results
  · exact .none
  · exact .some ⟨.marker length length' _, rfl⟩

theorem ending (length length' : Nat) (name : Text) :
    WrittenAlike dialect source other (.ending length name) (.ending length' name) :=
  fun _ => .some ⟨.marker length length' _, rfl⟩

theorem binding (length length' : Nat) (directive value : Text) :
    WrittenAlike dialect source other (.binding length directive value) (.binding length' directive value) := by
  intro symbols
  rw [written?, written?]
  cases MacroHead.read directive value with
  | error e => exact .none
  | ok head =>
    simp only
    cases symbols.declare head.name templateType with
    | error found => exact .none
    | ok symbols => exact .some ⟨.marker length length' _, rfl⟩

theorem closing (name : Text) : WrittenAlike dialect source other (.closing name) (.closing name) :=
  fun _ => .some ⟨.refl _, rfl⟩

theorem dropped (comment comment' : Span) : WrittenAlike dialect source other (.dropped comment) (.dropped comment') :=
  fun _ => .some ⟨.nil, rfl⟩

end Part.WrittenAlike

namespace WrittenAlike

theorem nil : WrittenAlike dialect source other [] [] := fun _ => .some ⟨.nil, rfl⟩

theorem append {first first' second second' : List Part} (one : WrittenAlike dialect source other first first')
    (two : WrittenAlike dialect source other second second') :
    WrittenAlike dialect source other (first ++ second) (first' ++ second') := by
  intro symbols
  have front := one symbols
  rw [written?_append_eq, written?_append_eq]
  generalize written? dialect source symbols first = written at front ⊢
  generalize written? dialect other symbols first' = written' at front ⊢
  cases front with
  | none => exact .none
  | @some a b related =>
    obtain ⟨text, symbols⟩ := a
    obtain ⟨text', symbols'⟩ := b
    obtain ⟨same, eq⟩ := related
    obtain rfl : symbols = symbols' := eq
    have back := two symbols
    simp only [Option.bind_some]
    generalize written? dialect source symbols second = written at back ⊢
    generalize written? dialect other symbols second' = written' at back ⊢
    cases back with
    | none => exact .none
    | some related => exact .some ⟨same.append related.1, related.2⟩

theorem cons {part part' : Part} {rest rest' : List Part} (own : part.WrittenAlike dialect source other part')
    (others : WrittenAlike dialect source other rest rest') :
    WrittenAlike dialect source other (part :: rest) (part' :: rest') := by
  refine @append _ _ _ [part] [part'] rest rest' (fun symbols => ?_) others
  rw [written?_singleton, written?_singleton]
  exact own symbols

theorem map {α : Type} {list : List α} {make make' : α → Part}
    (own : ∀ a ∈ list, (make a).WrittenAlike dialect source other (make' a)) :
    WrittenAlike dialect source other (list.map make) (list.map make') := by
  induction list with
  | nil => exact nil
  | cons a list ih =>
    exact cons (own a List.mem_cons_self) (ih fun b member => own b (List.mem_cons_of_mem _ member))

variable {shift low high : Nat}

/-- A start tag that recurs in another source, from some place in it on. -/
theorem tagLayout (recurs : source.Recurs other shift low high) {lo hi : Nat} {attributes : List Attribute}
    (placed : AttributesPlaced source hi lo attributes) (lower : low ≤ lo) (atLo : source.IsBoundary lo)
    (atHi : source.IsBoundary hi) (upper : hi ≤ high) :
    WrittenAlike dialect source other (MarkupTemplates.tagLayout lo hi attributes)
      (MarkupTemplates.tagLayout (lo + shift) (hi + shift) (attributes.map (Attribute.relocated (· + shift)))) := by
  induction placed with
  | nil less => exact cons (.kept (recurs.same _ _ atLo atHi lower less upper)) nil
  | @cons lo a rest above atStart forward atStop within ih =>
    have inside := within.le
    rw [List.map_cons, MarkupTemplates.tagLayout, MarkupTemplates.tagLayout,
      Attribute.reach_relocated shift (Nat.lt_of_le_of_lt (Nat.zero_le lo) above)]
    refine cons (.kept (recurs.same _ _ atLo atStart lower ?_ ?_)) (ih (by omega) atStop)
    · simp only [Attribute.reach]
      omega
    · simp only [Attribute.reach]
      omega

theorem statements (placeless : dialect.Placeless) (move : Nat → Nat) (list : List (DirectiveKind × Attribute)) :
    WrittenAlike dialect source other
      (list.map fun statement => .statement statement.2.reach.length (statement.2.statement statement.1))
      ((list.map fun statement => (statement.1, statement.2.relocated move)).map fun statement =>
        .statement statement.2.reach.length (statement.2.statement statement.1)) := by
  rw [List.map_map]
  exact map fun _ _ => .statement placeless _ _ rfl rfl rfl

theorem closings (move : Nat → Nat) (list : List (DirectiveKind × Attribute)) :
    WrittenAlike dialect source other (list.map fun statement => Part.closing statement.2.name).reverse
      ((list.map fun statement => (statement.1, statement.2.relocated move)).map fun statement =>
        Part.closing statement.2.name).reverse := by
  rw [List.map_map, ← List.map_reverse, ← List.map_reverse]
  exact map fun _ _ => .closing _

/-- An element that recurs in another source comes to the same there if its content does. -/
theorem element (placeless : dialect.Placeless) (names : DirectiveNames) (recurs : source.Recurs other shift low high)
    {tag : Tag} {stop : Nat} {children : List Node} (lower : low ≤ tag.span.start)
    (atStart : source.IsBoundary tag.span.start)
    (attributes : AttributesPlaced source tag.span.stop tag.span.start tag.attributes)
    (atTag : source.IsBoundary tag.span.stop) (upper : tag.span.stop ≤ high)
    (content : WrittenAlike dialect source other (MarkupTemplates.layout names source tag.span.stop stop none children)
      (MarkupTemplates.layout names other (tag.span.stop + shift) (stop + shift) none
        (children.map (Node.relocated (· + shift))))) :
    WrittenAlike dialect source other ((Node.element tag stop children).layout names source)
      (((Node.element tag stop children).relocated (· + shift)).layout names other) := by
  rw [Node.relocated, Node.layout, Node.layout, Walk.declarationOf?_relocated, relocatedInRow_eq_map]
  cases Walk.declarationOf? names tag with
  | some declaration => exact cons (.binding _ _ _ _) nil
  | none =>
    have among := statementsOf_sublist names tag
    have opening := @tagLayout dialect source other shift low high recurs _ _ _ (attributes.sublist among) lower atStart
      atTag upper
    simp only [Option.map_none, Walk.statementsOf_relocated]
    refine append (append (append (statements placeless _ _) ?_) content) (closings _ _)
    rw [List.map_map] at opening ⊢
    exact opening

/-- Markup that recurs in another source comes to the same there. -/
theorem layout (placeless : dialect.Placeless) (names : DirectiveNames) (recurs : source.Recurs other shift low high)
    {lo hi : Nat} {nodes : List Node} (placed : Placed source lo hi nodes) {cursor : Nat} (lower : low ≤ cursor)
    (atCursor : source.IsBoundary cursor) (within : cursor ≤ lo) (atHi : source.IsBoundary hi) (upper : hi ≤ high)
    (opened : Option OpenMacro) :
    WrittenAlike dialect source other (MarkupTemplates.layout names source cursor hi opened nodes)
      (MarkupTemplates.layout names other (cursor + shift) (hi + shift)
        (opened.map (OpenMacro.relocated (· + shift))) (nodes.map (Node.relocated (· + shift)))) := by
  have kept {start stop : Nat} (lower : low ≤ start) (atStart : source.IsBoundary start) (atStop : source.IsBoundary stop)
      (forward : start ≤ stop) (upper : stop ≤ high) :
      Part.WrittenAlike dialect source other (.kept ⟨start, stop⟩) (.kept ⟨start + shift, stop + shift⟩) :=
    .kept (recurs.same _ _ atStart atStop lower forward upper)
  induction placed generalizing cursor opened with
  | @nil lo hi less =>
    have last := kept lower atCursor atHi (Nat.le_trans within less) upper
    cases opened with
    | none => exact cons last nil
    | some opened => exact cons (.dropped _ _) (cons last nil)
  | @comment lo hi span rest above atStart forward atStop others ih =>
    have inside := others.le
    have same := recurs.at (Nat.le_trans lower (Nat.le_trans within above)) atStart forward atStop (by omega)
    have inFront := kept lower atCursor atStart (by omega) (by omega)
    have later := @ih span.stop (by omega) atStop (Nat.le_refl _) atHi upper
    rw [List.map_cons, Node.relocated, layout_comment, layout_comment, commentRole_relocated names same]
    cases commentRole names source opened span with
    | text => exact ih lower atCursor (by omega) atHi upper opened
    | statement directive => exact cons inFront (cons (.statement placeless _ _ rfl rfl rfl) (later none))
    | ending name => exact cons inFront (cons (.ending _ _ _) (later none))
    | opensMacro next =>
      refine append ?_ (cons inFront (later (some next)))
      cases opened with
      | none => exact nil
      | some previous => exact cons (.dropped _ _) nil
    | closesMacro found => exact cons (.binding _ _ _ _) (later none)
  | @element lo hi stop tag children rest above atStart attributes atTag content atStop others ihContent ih =>
    have ahead := attributes.le
    have inner := content.le
    have inside := others.le
    cases opened with
    | some opened => exact ih lower atCursor (by omega) atHi upper (some opened)
    | none =>
      have below := @ihContent tag.span.stop (by omega) atTag (Nat.le_refl _) atStop (by omega) none
      exact cons (kept lower atCursor atStart (by omega) (by omega)) (append
        (element placeless names recurs (by omega) atStart attributes atTag (by omega) below)
        (ih (by omega) atStop (Nat.le_refl _) atHi upper none))

end WrittenAlike

end

end MarkupTemplates
