import MarkupTemplates.Proofs.ParsedTemplate.Inheritance
import MarkupTemplates.Proofs.ParsedTemplate.Pieces
import MarkupTemplates.Proofs.ParsedTemplate.Values

namespace MarkupTemplates

theorem Siblings.trans {roots nodes row : List Node} (one : Siblings roots nodes) (two : Siblings nodes row) :
    Siblings roots row := by
  induction two with
  | roots => exact one
  | children _ member ih => exact .children ih member

theorem Siblings.cons (first : Node) {nodes row : List Node} (siblings : Siblings nodes row) :
    row = nodes ∨ Siblings (first :: nodes) row := by
  induction siblings with
  | roots => exact .inl rfl
  | children _ member ih =>
    rcases ih with rfl | below
    · exact .inr (.children .roots (List.mem_cons_of_mem _ member))
    · exact .inr (.children below member)

/-- All nodes are so, and all that are below them. -/
def Throughout (holds : Node → Prop) (nodes : List Node) : Prop :=
  ∀ row, Siblings nodes row → ∀ node ∈ row, holds node

theorem Throughout.rest {holds : Node → Prop} {first : Node} {nodes : List Node}
    (all : Throughout holds (first :: nodes)) : Throughout holds nodes := by
  intro row siblings node member
  rcases siblings.cons first with rfl | below
  · exact all _ .roots node (List.mem_cons_of_mem _ member)
  · exact all row below node member

theorem Throughout.siblings {holds : Node → Prop} {roots nodes : List Node} (all : Throughout holds roots)
    (below : Siblings roots nodes) : Throughout holds nodes :=
  fun row siblings => all row (below.trans siblings)

/-- No value of an attribute holds one of the marks that enclose code. -/
def Node.PlainValues (node : Node) : Prop :=
  ∀ tag stop children, node = .element tag stop children → ∀ a ∈ tag.attributes, ∀ value, a.value = some value →
    value.Plain

theorem WrittenAttribute.reading_located (a : WrittenAttribute) (start : Nat) :
    a.reading = ((a.located start).name, (a.located start).value) := by
  obtain ⟨gap, name, assignment⟩ := a
  cases assignment <;> rfl

theorem Text.Unmarked.values_throughout {source : Text} (unmarked : source.Unmarked) :
    Throughout Node.PlainValues source.nodes := by
  rintro row siblings _ member tag stop children rfl a inside value assigned
  obtain ⟨before, first, tail, after, written, _, pieces, tagged, _, rfl, _⟩ := element_tokens siblings member
  obtain ⟨earlier, own, later, split, rfl⟩ := mem_locatedInRow inside
  refine unmarked.values first (by rw [pieces]; simp) own.name value ?_
  have reading := own.reading_located ((spelling before).byteSize + 1 + Text.byteSize written.name + sizeInRow earlier)
  rw [assigned] at reading
  rw [Token.readings_of_tag tagged, WrittenTag.readings, split, List.map_append, List.map_cons, reading]
  exact List.mem_append_right _ List.mem_cons_self

/-- The value of a statement in a comment holds no mark if the comment does not. -/
theorem plain_of_commentRole {names : DirectiveNames} {source : Text} {opened : Option OpenMacro} {span : Span}
    {directive : Directive} (plain : source.Plain)
    (role : commentRole names source opened span = .statement directive) : directive.value.Plain := by
  obtain ⟨found, read, value, _⟩ := commentRole_statement role
  obtain ⟨before, mark, mark', after, split, _⟩ := CommentDirective.read?_written read
  have inside : found.value ⊆ source := by
    refine List.Subset.trans ?_ (Text.slice_subset source span.start span.stop)
    show _ ⊆ source.at span
    rw [split]
    exact List.subset_append_of_subset_right _ (List.subset_cons_of_subset _ (List.subset_append_left _ _))
  rw [value]
  exact plain.of_subset (List.Subset.trans (Text.trim_subset found.value) inside)

theorem kept_of_mem_tagLayout {cursor stop : Nat} {attributes : List Attribute} {part : Part}
    (member : part ∈ tagLayout cursor stop attributes) : ∃ span, part = .kept span := by
  induction attributes generalizing cursor with
  | nil => exact ⟨_, List.mem_singleton.mp member⟩
  | cons a rest ih =>
    rcases List.mem_cons.mp member with rfl | member
    · exact ⟨_, rfl⟩
    · exact ih member

/-- No statement that is handed on has a mark in its value. -/
theorem plain_of_statement {names : DirectiveNames} {source : Text} (plain : source.Plain) (nodes : List Node) :
    ∀ {cursor stop : Nat} {opened : Option OpenMacro}, Throughout Node.PlainValues nodes →
      ∀ length directive, .statement length directive ∈ layout names source cursor stop opened nodes →
        directive.value.Plain := by
  induction nodes using row_induction with
  | nil =>
    intro cursor stop opened _ length directive member
    cases opened <;> simp [layout] at member
  | comment span rest ih =>
    intro cursor stop opened all length directive member
    have others := fun cursor opened => @ih cursor stop opened all.rest length directive
    rw [layout_comment] at member
    cases role : commentRole names source opened span with
    | text =>
      rw [role] at member
      exact others _ _ member
    | statement own =>
      simp only [role, List.mem_cons, reduceCtorEq, false_or] at member
      rcases member with eq | member
      · obtain ⟨_, rfl⟩ := Part.statement.inj eq
        exact plain_of_commentRole plain role
      · exact others _ _ member
    | ending name =>
      simp only [role, List.mem_cons, reduceCtorEq, false_or] at member
      exact others _ _ member
    | opensMacro next =>
      cases opened <;>
        simp only [role, List.mem_append, List.mem_cons, List.not_mem_nil, reduceCtorEq, false_or] at member <;>
        exact others _ _ member
    | closesMacro found =>
      simp only [role, List.mem_cons, reduceCtorEq, false_or] at member
      exact others _ _ member
  | element tag stop' children rest ihChildren ih =>
    intro cursor stop opened all length directive member
    cases opened with
    | some opened => exact ih all.rest length directive member
    | none =>
      rw [layout, List.cons_append, List.mem_cons, List.mem_append] at member
      rcases member with eq | member | member
      · cases eq
      · rw [Node.layout] at member
        cases declares : Walk.declarationOf? names tag with
        | some declaration =>
          rw [declares] at member
          cases List.mem_singleton.mp member
        | none =>
          simp only [declares, List.mem_append] at member
          rcases member with ((member | member) | member) | member
          · obtain ⟨statement, own, eq⟩ := List.mem_map.mp member
            obtain ⟨_, rfl⟩ := Part.statement.inj eq
            have among := (statementsOf_sublist names tag).subset (List.mem_map.mpr ⟨statement, own, rfl⟩)
            refine Text.Plain.of_subset ?_ (Text.trim_subset _)
            cases value : statement.2.value with
            | none => exact fun c member => absurd member List.not_mem_nil
            | some value' => exact all _ .roots _ List.mem_cons_self _ _ _ rfl _ among _ value
          · obtain ⟨_, eq⟩ := kept_of_mem_tagLayout member
            cases eq
          · exact ihChildren (all.siblings (.children .roots List.mem_cons_self)) length directive member
          · obtain ⟨_, _, eq⟩ := List.mem_map.mp (List.mem_reverse.mp member)
            cases eq
      · exact ih all.rest length directive member

/-- The chunks of a document that comes from an unmarked source are what its directives come to. -/
theorem Parser.chunks_of_unmarked {Compiled : Type} {parser : Parser Compiled} {stream : Bool} {depth : Nat}
    {resource : Resource} {events : List Event} {template : ParsedTemplate Compiled}
    (demo : parser.dialect = Program.dialect) (size : resource.source.byteSize < Marker.lengthBound)
    (unmarked : resource.source.Unmarked)
    (parsed : parser.parseWithin stream depth resource = (events, .ok template)) :
    ∃ list, pieces? Program.dialect resource.source {} (layout parser.names resource.source 0
      resource.source.byteSize none resource.source.nodes) = some (list, template.symbols) ∧
        template.chunks = Chunk.merged list := by
  have written := parser.parseWithin_written parsed
  rw [demo, written?_eq_pieces] at written
  obtain ⟨⟨list, symbols⟩, pieces, eq⟩ := Option.map_eq_some_iff.mp written
  obtain ⟨code, rfl⟩ := Prod.mk.inj eq
  refine ⟨list, pieces, ?_⟩
  rw [ParsedTemplate.chunks, ← code, Chunk.chunks_document_iff]
  constructor
  · intro length inner member
    obtain ⟨part, found, _, _, piece⟩ := exists_part_of_mem_pieces pieces member
    obtain ⟨rfl, plain⟩ := code_of_piece piece
    refine ⟨Nat.lt_of_le_of_lt ((placed_nodes _).codeLength_le 0 none part found) size, plain ?_⟩
    exact fun own directive eq =>
      plain_of_statement unmarked.plain _ unmarked.values_throughout own directive (eq ▸ found)
  · intro t member
    refine Text.no_code_of_plain fun mark => ?_
    obtain ⟨s, found, inside⟩ := Chunk.mem_text_merged member mark
    obtain ⟨_, _, _, _, piece⟩ := exists_part_of_mem_pieces pieces found
    exact absurd (unmarked.plain _ (text_of_piece piece inside)) (by decide)

end MarkupTemplates
