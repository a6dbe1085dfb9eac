import MarkupTemplates.Proofs.ParsedTemplate.Unmarked
import MarkupTemplates.Proofs.Program.Blocks

namespace MarkupTemplates

/-- Statements with a block, which is closed again. -/
def DirectiveKind.hasBlock (kind : DirectiveKind) : Bool := Program.blockWords.contains kind.defaultName

namespace Program

theorem wordOf_append {word : Text} (rest : Text) (apart : ':' ∉ word) : wordOf (word ++ ':' :: rest) = word := by
  rw [wordOf, ProgramDraft.splitCode_append rest apart]

theorem args_append {word : Text} (rest : Text) (apart : ':' ∉ word) :
    (ProgramDraft.splitCode (word ++ ':' :: rest)).2 = rest := by
  rw [ProgramDraft.splitCode_append rest apart]

/-- The code of a statement is its word and what follows the colon after it. -/
theorem statementCode_form {directive : Directive} {symbols after : SymbolTable} {code : Text}
    (h : statementCode directive symbols = .ok (code, after)) :
    directive.kind.isStatement = true ∧ ∃ rest, code = directive.kind.defaultName ++ ':' :: rest ∧
      (directive.kind = .forEach ∨ directive.kind = .set → ':' ∈ rest) := by
  have condition (word : Text) (eq : directive.kind.defaultName = word)
      (h : (expressionCode word directive.value >>= fun text => pure (text, symbols)) = .ok (code, after)) :
      ∃ rest, code = directive.kind.defaultName ++ ':' :: rest := by
    obtain ⟨text, coded, eq'⟩ := ok_of_bind h
    obtain ⟨rfl, _⟩ := Prod.mk.inj (Except.ok.inj eq')
    obtain ⟨e, _, eq'⟩ := ok_of_bind coded
    exact ⟨e.source, by rw [eq, ← Except.ok.inj eq']⟩
  have assignment (word : Text) (eq : directive.kind.defaultName = word) (separator : Char)
      (h : (readAssignment separator directive.value >>= fun read =>
        declare symbols read.1 false >>= fun symbols => pure (word ++ [':'] ++ read.1 ++ ':' :: read.2, symbols)) =
        .ok (code, after)) : ∃ rest, code = directive.kind.defaultName ++ ':' :: rest ∧ ':' ∈ rest := by
    obtain ⟨⟨var, e⟩, _, h⟩ := ok_of_bind h
    obtain ⟨table, _, eq'⟩ := ok_of_bind h
    obtain ⟨rfl, _⟩ := Prod.mk.inj (Except.ok.inj eq')
    exact ⟨var ++ ':' :: e, by rw [eq]; simp, by simp⟩
  unfold statementCode at h
  cases kind : directive.kind <;> rw [kind] at h condition assignment
  case ifTrue =>
    obtain ⟨rest, eq⟩ := condition "if" rfl h
    exact ⟨rfl, rest, eq, by simp⟩
  case elseIf =>
    obtain ⟨rest, eq⟩ := condition "elseif" rfl h
    exact ⟨rfl, rest, eq, by simp⟩
  case otherwise =>
    obtain ⟨rfl, _⟩ := Prod.mk.inj (Except.ok.inj h)
    exact ⟨rfl, [], rfl, by simp⟩
  case breakIf =>
    obtain ⟨rest, eq⟩ := condition "breakif" rfl h
    exact ⟨rfl, rest, eq, by simp⟩
  case forEach =>
    obtain ⟨rest, eq, mark⟩ := assignment "foreach" rfl ':' h
    exact ⟨rfl, rest, eq, fun _ => mark⟩
  case set =>
    obtain ⟨rest, eq, mark⟩ := assignment "set" rfl '=' h
    exact ⟨rfl, rest, eq, fun _ => mark⟩
  case var =>
    obtain ⟨table, _, eq⟩ := ok_of_bind h
    obtain ⟨rfl, _⟩ := Prod.mk.inj (Except.ok.inj eq)
    exact ⟨rfl, _, rfl, by simp⟩
  all_goals cases h

/-- The code of a statement is in order, and opens a block if the statement has one. -/
theorem statementCode_blocks {directive : Directive} {symbols after : SymbolTable} {code : Text}
    (h : statementCode directive symbols = .ok (code, after)) :
    InOrder code ∧ ∀ opened, blockStep opened code =
      some (if directive.kind.hasBlock then directive.kind.defaultName :: opened else opened) := by
  obtain ⟨isStatement, rest, rfl, parts⟩ := statementCode_form h
  have apart : ':' ∉ directive.kind.defaultName := by cases directive.kind <;> decide
  have word := wordOf_append rest apart
  refine ⟨⟨?_, fun own => ?_⟩, fun opened => ?_⟩
  · rw [word]
    cases kind : directive.kind <;> first | decide | (rw [kind] at isStatement; cases isStatement)
  · rw [word] at own
    rw [args_append rest apart]
    refine parts ?_
    cases kind : directive.kind <;> rw [kind] at own <;> revert own <;> decide
  · unfold blockStep
    rw [word]
    cases block : directive.kind.hasBlock with
    | true =>
      rw [DirectiveKind.hasBlock] at block
      rw [if_pos block, if_pos rfl]
    | false =>
      have other : directive.kind.defaultName ≠ ("end" : Text) := by
        cases kind : directive.kind <;> first | decide | (rw [kind] at isStatement; cases isStatement)
      rw [DirectiveKind.hasBlock] at block
      rw [if_neg (by rw [block]; exact Bool.false_ne_true), if_neg other, if_neg Bool.false_ne_true]

theorem endingCode_defaultName (kind : DirectiveKind) :
    endingCode kind.defaultName = if kind.hasBlock then ("end:" : Text) else [] := by
  cases kind <;> decide

theorem bindingCode_blocks {name : Text} :
    InOrder (dialect.binding name) ∧ ∀ opened, blockStep opened (dialect.binding name) = some opened := by
  have word : wordOf (dialect.binding name) = ("bind" : Text) := @wordOf_append "bind" name (by decide)
  refine ⟨⟨by rw [word]; decide, fun own => ?_⟩, fun opened => ?_⟩
  · rw [word] at own
    exact absurd own (by decide)
  · unfold blockStep
    rw [word]
    rfl

end Program

section

variable {dialect : Dialect} {source : Text} {symbols after : SymbolTable} {list : List Chunk}

theorem pieces?_cons {part : Part} {rest : List Part}
    (h : pieces? dialect source symbols (part :: rest) = some (list, after)) :
    ∃ piece others between, part.piece? dialect source symbols = some (piece, between) ∧
      pieces? dialect source between rest = some (others, after) ∧ list = piece :: others := by
  rw [pieces?] at h
  cases found : part.piece? dialect source symbols with
  | none =>
    rw [found] at h
    cases h
  | some read =>
    obtain ⟨piece, between⟩ := read
    rw [found] at h
    obtain ⟨⟨others, _⟩, later, eq⟩ := Option.map_eq_some_iff.mp h
    obtain ⟨rfl, rfl⟩ := Prod.mk.inj eq
    exact ⟨piece, others, between, rfl, later, rfl⟩

theorem Part.piece_binding {length : Nat} {directive value : Text} {piece : Chunk}
    (h : (Part.binding length directive value).piece? dialect source symbols = some (piece, after)) :
    ∃ head, MacroHead.read directive value = .ok head ∧ symbols.declare head.name templateType = .ok after ∧
      piece = .code length (dialect.binding head.name) := by
  rw [piece?] at h
  cases read : MacroHead.read directive value with
  | error e =>
    rw [read] at h
    cases h
  | ok head =>
    simp only [read] at h
    split at h
    · next table declared =>
      obtain ⟨rfl, rfl⟩ := Prod.mk.inj (Option.some.inj h)
      exact ⟨head, rfl, declared, rfl⟩
    · cases h

/-- The chunks of parts in a row are the chunks of the first and then those of the others. -/
theorem pieces?_append {first second : List Part}
    (h : pieces? dialect source symbols (first ++ second) = some (list, after)) :
    ∃ one two between, pieces? dialect source symbols first = some (one, between) ∧
      pieces? dialect source between second = some (two, after) ∧ list = one ++ two := by
  induction first generalizing symbols list with
  | nil => exact ⟨[], list, symbols, rfl, h, rfl⟩
  | cons part first ih =>
    obtain ⟨piece, others, between, found, later, rfl⟩ := pieces?_cons h
    obtain ⟨one, two, between', one_eq, two_eq, rfl⟩ := ih later
    refine ⟨piece :: one, two, between', ?_, two_eq, rfl⟩
    rw [pieces?, found]
    simp only [one_eq, Option.map_some]

end

theorem Chunk.codes_append (first second : List Chunk) :
    Chunk.codes (first ++ second) = Chunk.codes first ++ Chunk.codes second := List.filterMap_append

/-- Chunks whose codes are in order and leave all blocks as they were. -/
structure Chunk.Balanced (list : List Chunk) : Prop where
  inOrder : ∀ code ∈ Chunk.codes list, Program.InOrder code
  blocks : ∀ opened, Program.blocksAfter opened (Chunk.codes list) = some opened

theorem Chunk.Balanced.append {first second : List Chunk} (one : Balanced first) (two : Balanced second) :
    Balanced (first ++ second) := by
  refine ⟨fun code member => ?_, fun opened => ?_⟩
  · rw [codes_append] at member
    exact (List.mem_append.mp member).elim (one.inOrder code) (two.inOrder code)
  · rw [codes_append, Program.blocksAfter_append, one.blocks, Option.bind_some, two.blocks]

theorem Chunk.balanced_text (t : Text) : Balanced [.text t] :=
  ⟨fun _ member => absurd member List.not_mem_nil, fun _ => rfl⟩

/-- The statements of a tag that have a block, by their words, the last one first. -/
def Tag.blockWords (tag : Tag) : List Text :=
  (((Walk.statementsOf .default tag).map Prod.fst).filter DirectiveKind.hasBlock).reverse.map
    DirectiveKind.defaultName

theorem kindOf?_default {name : Text} {kind : DirectiveKind} (h : DirectiveNames.default.kindOf? name = some kind) :
    name = kind.defaultName := by
  have own := List.find?_some h
  exact (of_decide_eq_true own).symm

theorem name_of_mem_statementsOf {names : DirectiveNames} {tag : Tag} {kind : DirectiveKind} {a : Attribute}
    (member : (kind, a) ∈ Walk.statementsOf names tag) : names.kindOf? a.name = some kind := by
  obtain ⟨b, _, eq⟩ := List.mem_filterMap.mp member
  split at eq
  · next kind' own =>
    split at eq
    · obtain ⟨rfl, rfl⟩ := Prod.mk.inj (Option.some.inj eq)
      exact own
    · cases eq
  · cases eq

section

variable {source : Text} {symbols after : SymbolTable} {list : List Chunk}

/-- The codes of statements open the blocks of those that have one, each inside those before it. -/
theorem blocksAfter_statements {statements : List (DirectiveKind × Attribute)} (opened : List Text)
    (h : pieces? Program.dialect source symbols (statements.map fun statement =>
      .statement statement.2.reach.length (statement.2.statement statement.1)) = some (list, after)) :
    (∀ code ∈ Chunk.codes list, Program.InOrder code) ∧ (∀ chunk ∈ list, chunk.isCode = true) ∧
      Program.blocksAfter opened (Chunk.codes list) =
        some (((statements.map Prod.fst).filter DirectiveKind.hasBlock).reverse.map DirectiveKind.defaultName ++
          opened) := by
  induction statements generalizing symbols list opened with
  | nil =>
    obtain ⟨rfl, _⟩ := Prod.mk.inj (Option.some.inj h)
    exact ⟨fun _ member => absurd member List.not_mem_nil, fun _ member => absurd member List.not_mem_nil, rfl⟩
  | cons statement statements ih =>
    obtain ⟨piece, others, between, own, later, rfl⟩ := pieces?_cons h
    rw [Part.piece?] at own
    split at own
    · next code symbols' coded =>
      obtain ⟨rfl, rfl⟩ := Prod.mk.inj (Option.some.inj own)
      obtain ⟨inOrder, step⟩ := Program.statementCode_blocks coded
      obtain ⟨inOrder', codes, blocks⟩ :=
        ih (if statement.1.hasBlock then statement.1.defaultName :: opened else opened)
        later
      refine ⟨List.forall_mem_cons.mpr ⟨inOrder, inOrder'⟩, List.forall_mem_cons.mpr ⟨rfl, codes⟩, ?_⟩
      show (Program.blockStep opened code).bind _ = _
      rw [step, Option.bind_some]
      refine blocks.trans ?_
      rw [List.map_cons]
      show some (_ ++ if statement.1.hasBlock then _ else _) = _
      cases block : statement.1.hasBlock with
      | true => simp [block]
      | false => simp [block]
    · cases own

/-- What stands behind an element for each of its statements. -/
def DirectiveKind.closing (kind : DirectiveKind) : Chunk := if kind.hasBlock then .code 0 "end:" else .text []

theorem pieces?_closings {statements : List (DirectiveKind × Attribute)}
    (own : ∀ statement ∈ statements, DirectiveNames.default.kindOf? statement.2.name = some statement.1)
    (h : pieces? Program.dialect source symbols (statements.map fun statement => .closing statement.2.name) =
      some (list, after)) : list = statements.map fun statement => statement.1.closing := by
  induction statements generalizing list with
  | nil =>
    obtain ⟨rfl, _⟩ := Prod.mk.inj (Option.some.inj h)
    rfl
  | cons statement statements ih =>
    obtain ⟨piece, others, between, first, later, rfl⟩ := pieces?_cons h
    obtain ⟨eq, rfl⟩ := Prod.mk.inj (Option.some.inj first)
    rw [List.map_cons, ← ih (fun next member => own next (List.mem_cons_of_mem _ member)) later, ← eq,
      kindOf?_default (own statement List.mem_cons_self)]
    have ending := Program.endingCode_defaultName statement.1
    rw [show Program.dialect.ending = Program.endingCode from rfl, ending, DirectiveKind.closing]
    cases statement.1.hasBlock <;> rfl

/-- The ends behind an element close the blocks of its statements, from the inside out. -/
theorem blocksAfter_closings (kinds : List DirectiveKind) (opened : List Text) :
    Program.blocksAfter ((kinds.filter DirectiveKind.hasBlock).map DirectiveKind.defaultName ++ opened)
      (Chunk.codes (kinds.map DirectiveKind.closing)) = some opened := by
  induction kinds with
  | nil => rfl
  | cons kind kinds ih =>
    cases block : kind.hasBlock with
    | true =>
      rw [List.filter_cons, block, if_pos rfl, List.map_cons, List.map_cons, DirectiveKind.closing, block]
      exact ih
    | false =>
      rw [List.filter_cons, block, if_neg Bool.false_ne_true, List.map_cons, DirectiveKind.closing, block]
      exact ih

theorem inOrder_closings (kinds : List DirectiveKind) :
    ∀ code ∈ Chunk.codes (kinds.map DirectiveKind.closing), Program.InOrder code := by
  intro code member
  obtain ⟨chunk, inside, eq⟩ := List.mem_filterMap.mp member
  obtain ⟨kind, _, rfl⟩ := List.mem_map.mp inside
  rw [DirectiveKind.closing] at eq
  cases block : kind.hasBlock with
  | true =>
    rw [block] at eq
    rw [← Option.some.inj eq]
    exact ⟨by decide, fun own => absurd own (by decide)⟩
  | false =>
    rw [block] at eq
    cases eq

end

/-- No comment among the nodes, or among those in them, is a directive. -/
def Quiet (source : Text) : List Node → Prop :=
  Throughout fun node => ∀ span, node = .comment span → commentRole .default source none span = .text

section

variable {source : Text}

/-- In a source without directives in comments no comment is read as one. -/
theorem Text.Uncommented.quiet (uncommented : source.Uncommented .default) : Quiet source source.nodes := by
  rintro row siblings _ member span rfl
  obtain ⟨first, second, rfl⟩ := List.append_of_mem member
  obtain ⟨_, document⟩ := formed_nodes source
  obtain ⟨outer, before, inner, after, _, pieces, formed⟩ := document.siblings siblings
  obtain ⟨front, text, rest, rfl, eq, _, _⟩ := formed.split_comment
  have here : Scan.tokens source = (before ++ front) ++ .comment text :: (rest ++ after) := by
    rw [pieces]
    simp only [List.append_assoc, List.cons_append]
  have stands : Stands source (spelling (before ++ front)).byteSize text := by
    refine ⟨spelling (before ++ front), spelling (rest ++ after), ?_, rfl⟩
    rw [← show (Token.comment text).text = text from rfl, List.append_assoc, ← spelling_cons, ← spelling_append,
      ← here, spelling, Scan.tokens_spells]
  have own : source.at span = text := by
    rw [eq]
    simp only [byteSize_spelling_append, byteSize_spelling_singleton, Nat.zero_add, ← Nat.add_assoc, Token.text]
    rw [byteSize_spelling_append] at stands
    exact stands.slice
  have none := uncommented text (by rw [here]; simp)
  rw [commentRole, own]
  cases read : CommentDirective.read? span.start text with
  | none => rfl
  | some found =>
    obtain ⟨found', again, name, _⟩ := CommentDirective.read?_shift read 0
    rw [DirectiveNames.commentKind?, again, Option.bind_some, name] at none
    simp only [none]

theorem Chunk.balanced_of_texts {list : List Chunk} (texts : ∀ chunk ∈ list, chunk.isCode = false) :
    Balanced list := by
  have none : Chunk.codes list = [] := by
    refine List.filterMap_eq_nil_iff.mpr fun chunk member => ?_
    have text := texts chunk member
    cases chunk with
    | text t => rfl
    | code length inner => cases text
  exact ⟨fun code member => absurd (none ▸ member) List.not_mem_nil, fun opened => by rw [none]; rfl⟩

theorem balanced_tagLayout {symbols after : SymbolTable} {cursor stop : Nat} {attributes : List Attribute}
    {list : List Chunk}
    (h : pieces? Program.dialect source symbols (tagLayout cursor stop attributes) = some (list, after)) :
    Chunk.Balanced list := by
  refine Chunk.balanced_of_texts fun chunk member => ?_
  obtain ⟨part, inside, _, _, piece⟩ := exists_part_of_mem_pieces h member
  obtain ⟨span, rfl⟩ := kept_of_mem_tagLayout inside
  obtain ⟨rfl, _⟩ := Prod.mk.inj (Option.some.inj piece)
  rfl

/-- What an element that is no macro comes to: the codes of its statements, what is kept of it together with what
its children come to, and the ends. -/
structure ElementPieces (source : Text) (tag : Tag) (stop : Nat) (children : List Node)
    (heads inside ends : List Chunk) : Prop where
  opened : ∃ before between after,
    pieces? Program.dialect source before ((Walk.statementsOf .default tag).map fun statement =>
      .statement statement.2.reach.length (statement.2.statement statement.1)) = some (heads, between) ∧
    pieces? Program.dialect source between
      (tagLayout tag.span.start tag.span.stop ((Walk.statementsOf .default tag).map Prod.snd) ++
        layout .default source tag.span.stop stop none children) = some (inside, after)
  closed : ends = ((Walk.statementsOf .default tag).map Prod.fst).reverse.map DirectiveKind.closing

variable {symbols after : SymbolTable} {list : List Chunk}

theorem elementPieces {tag : Tag} {stop : Nat} {children : List Node}
    (open_tag : Walk.declarationOf? .default tag = none)
    (h : pieces? Program.dialect source symbols ((Node.element tag stop children).layout .default source) =
      some (list, after)) :
    ∃ heads inside ends, list = heads ++ (inside ++ ends) ∧
      ElementPieces source tag stop children heads inside ends := by
  rw [Node.layout, open_tag] at h
  simp only at h
  rw [List.append_assoc _ (tagLayout ..), List.append_assoc, ← List.map_reverse] at h
  obtain ⟨heads, others, between, first, later, rfl⟩ := pieces?_append h
  obtain ⟨inside, ends, between', second, third, rfl⟩ := pieces?_append later
  have closed := pieces?_closings (fun statement member =>
    name_of_mem_statementsOf (List.mem_reverse.mp member)) third
  refine ⟨heads, inside, ends, rfl, ⟨symbols, between, between', first, second⟩, ?_⟩
  rw [closed, ← List.map_reverse, List.map_map]
  rfl

/-- The codes of the statements of an element open its blocks, and the ends behind it close them. -/
theorem ElementPieces.blocks {tag : Tag} {stop : Nat} {children : List Node} {heads inside ends : List Chunk}
    (pieces : ElementPieces source tag stop children heads inside ends) (opened : List Text) :
    (∀ code ∈ Chunk.codes heads, Program.InOrder code) ∧ (∀ code ∈ Chunk.codes ends, Program.InOrder code) ∧
      Program.blocksAfter opened (Chunk.codes heads) = some (tag.blockWords ++ opened) ∧
      Program.blocksAfter (tag.blockWords ++ opened) (Chunk.codes ends) = some opened := by
  obtain ⟨_, _, _, first, _⟩ := pieces.opened
  obtain ⟨inOrder, _, blocks⟩ := blocksAfter_statements opened first
  rw [pieces.closed]
  refine ⟨inOrder, inOrder_closings _, blocks, ?_⟩
  rw [Tag.blockWords, ← List.filter_reverse]
  exact blocksAfter_closings _ opened

/-- An element opens and closes no blocks beyond its own if what is in it does not. -/
theorem balanced_element {tag : Tag} {stop : Nat} {children : List Node}
    (inner : ∀ {symbols after : SymbolTable} {list : List Chunk}, pieces? Program.dialect source symbols
      (layout .default source tag.span.stop stop none children) = some (list, after) → Chunk.Balanced list)
    (h : pieces? Program.dialect source symbols ((Node.element tag stop children).layout .default source) =
      some (list, after)) : Chunk.Balanced list := by
  cases declares : Walk.declarationOf? .default tag with
  | some declaration =>
    rw [Node.layout, declares] at h
    obtain ⟨piece, nothing, _, binding, none, rfl⟩ := pieces?_cons h
    obtain ⟨rfl, _⟩ := Prod.mk.inj (Option.some.inj none)
    obtain ⟨head, _, _, rfl⟩ := Part.piece_binding binding
    obtain ⟨inOrder, blocks⟩ := @Program.bindingCode_blocks head.name
    refine ⟨List.forall_mem_singleton.mpr inOrder, fun opened => ?_⟩
    show (Program.blockStep opened _).bind _ = _
    rw [blocks, Option.bind_some]
    rfl
  | none =>
    obtain ⟨heads, inside, ends, rfl, pieces⟩ := elementPieces declares h
    obtain ⟨_, _, _, _, kept⟩ := pieces.opened
    obtain ⟨start, below, _, one, two, rfl⟩ := pieces?_append kept
    have balanced := (balanced_tagLayout one).append (inner two)
    refine ⟨fun code member => ?_, fun opened => ?_⟩
    · obtain ⟨inOrder, inOrder', _⟩ := pieces.blocks []
      rw [Chunk.codes_append, Chunk.codes_append] at member
      rcases List.mem_append.mp member with member | member
      · exact inOrder code member
      · exact (List.mem_append.mp member).elim (balanced.inOrder code) (inOrder' code)
    · obtain ⟨_, _, opens, closes⟩ := pieces.blocks opened
      rw [Chunk.codes_append, Chunk.codes_append, Program.blocksAfter_append, opens, Option.bind_some,
        Program.blocksAfter_append, balanced.blocks, Option.bind_some, closes]

/-- Where no comment is a directive, nothing that nodes come to opens or closes blocks beyond its own. -/
theorem balanced_layout (nodes : List Node) : ∀ {cursor stop : Nat} {symbols after : SymbolTable}
    {list : List Chunk}, Quiet source nodes →
    pieces? Program.dialect source symbols (layout .default source cursor stop none nodes) = some (list, after) →
    Chunk.Balanced list := by
  induction nodes using row_induction with
  | nil =>
    intro cursor stop symbols after list _ h
    obtain ⟨piece, others, between, first, later, rfl⟩ := pieces?_cons h
    obtain ⟨rfl, rfl⟩ := Prod.mk.inj (Option.some.inj first)
    obtain ⟨rfl, _⟩ := Prod.mk.inj (Option.some.inj later)
    exact Chunk.balanced_text _
  | comment span rest ih =>
    intro cursor stop symbols after list quiet h
    rw [layout_comment, quiet _ .roots _ List.mem_cons_self span rfl] at h
    exact ih quiet.rest h
  | element tag stop' children rest ihChildren ih =>
    intro cursor stop symbols after list quiet h
    rw [layout, List.cons_append] at h
    obtain ⟨piece, others, between, first, later, rfl⟩ := pieces?_cons h
    obtain ⟨rfl, rfl⟩ := Prod.mk.inj (Option.some.inj first)
    obtain ⟨own, behind, between', element, last, rfl⟩ := pieces?_append later
    have inner := balanced_element (ihChildren (quiet.siblings (.children .roots List.mem_cons_self))) element
    exact (Chunk.balanced_text _).append (inner.append (ih quiet.rest last))

end

end MarkupTemplates
