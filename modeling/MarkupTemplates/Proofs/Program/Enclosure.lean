import MarkupTemplates.Proofs.Program.Nesting

namespace MarkupTemplates

namespace Chunk

theorem codes_push (c : Char) (list : List Chunk) : codes (push c list) = codes list := by
  cases list with
  | nil => rfl
  | cons first rest => cases first <;> rfl

theorem codes_foldr_push (t : Text) (list : List Chunk) : codes (t.foldr push list) = codes list := by
  induction t with
  | nil => rfl
  | cons c t ih => rw [List.foldr_cons, codes_push, ih]

/-- Put together, chunks hold the same codes. -/
theorem codes_merged (list : List Chunk) : codes (merged list) = codes list := by
  induction list with
  | nil => rfl
  | cons chunk list ih =>
    cases chunk with
    | text t =>
      rw [merged, codes_foldr_push]
      exact ih
    | code length inner => exact congrArg (inner :: ·) ih

theorem merged_append_congr (first : List Chunk) {second other : List Chunk} (same : merged second = merged other) :
    merged (first ++ second) = merged (first ++ other) := by
  induction first with
  | nil => exact same
  | cons chunk first ih =>
    cases chunk with
    | text t => rw [List.cons_append, List.cons_append, merged, merged, ih]
    | code length inner => rw [List.cons_append, List.cons_append, merged, merged, ih]

theorem merged_append_of_codes {list : List Chunk} (codes : ∀ chunk ∈ list, chunk.isCode = true)
    (rest : List Chunk) : merged (list ++ rest) = list ++ merged rest := by
  induction list with
  | nil => rfl
  | cons chunk list ih =>
    cases chunk with
    | text t => exact absurd (codes _ List.mem_cons_self) Bool.false_ne_true
    | code length inner =>
      rw [List.cons_append, merged, ih fun next member => codes next (List.mem_cons_of_mem _ member),
        List.cons_append]

theorem merged_append_code (first : List Chunk) (length : Nat) (inner : Text) (rest : List Chunk) :
    merged (first ++ .code length inner :: rest) = merged first ++ .code length inner :: merged rest := by
  induction first with
  | nil => rfl
  | cons chunk first ih =>
    cases chunk with
    | text t =>
      rw [List.cons_append, merged, merged, ih]
      induction t with
      | nil => rfl
      | cons c t ih' => rw [List.foldr_cons, ih', push_append, List.foldr_cons]
    | code length' inner' => rw [List.cons_append, merged, merged, ih, List.cons_append]

/-- No text is put together across codes. -/
theorem merged_around {list : List Chunk} (codes : ∀ chunk ∈ list, chunk.isCode = true) (some_code : list ≠ [])
    (first rest : List Chunk) : merged (first ++ (list ++ rest)) = merged first ++ (list ++ merged rest) := by
  cases list with
  | nil => exact absurd rfl some_code
  | cons chunk list =>
    cases chunk with
    | text t => exact absurd (codes _ List.mem_cons_self) Bool.false_ne_true
    | code length inner =>
      rw [List.cons_append, merged_append_code,
        merged_append_of_codes (fun next member => codes next (List.mem_cons_of_mem _ member)), List.cons_append]

end Chunk

theorem merged_closings (kinds : List DirectiveKind) (rest : List Chunk) :
    Chunk.merged (kinds.map DirectiveKind.closing ++ rest) =
      List.replicate (kinds.countP DirectiveKind.hasBlock) (.code 0 "end:") ++ Chunk.merged rest := by
  induction kinds with
  | nil => rfl
  | cons kind kinds ih =>
    rw [List.map_cons, List.cons_append, DirectiveKind.closing]
    cases block : kind.hasBlock with
    | true =>
      rw [if_pos rfl, Chunk.merged, ih, List.countP_cons, block, if_pos rfl, List.replicate_succ, List.cons_append]
    | false =>
      rw [if_neg Bool.false_ne_true, Chunk.merged, List.foldr_nil, ih, List.countP_cons, block,
        if_neg Bool.false_ne_true, Nat.add_zero]

theorem Tag.length_blockWords (tag : Tag) : tag.blockWords.length =
    ((Walk.statementsOf .default tag).map Prod.fst).reverse.countP DirectiveKind.hasBlock := by
  rw [blockWords, List.length_map, List.length_reverse, List.countP_reverse, List.countP_eq_length_filter]

/-- The rows of siblings that are reached through elements that are no macros, with the start tags of those
elements from the inside out. -/
inductive Enclosed (roots : List Node) : List Tag → List Node → Prop
  | roots : Enclosed roots [] roots
  | inside {outer : List Tag} {row children : List Node} {tag : Tag} {stop : Nat} :
      Enclosed roots outer row → .element tag stop children ∈ row → Walk.declarationOf? .default tag = none →
      Enclosed roots (tag :: outer) children

theorem Enclosed.siblings {roots row : List Node} {outer : List Tag} (enclosed : Enclosed roots outer row) :
    Siblings roots row := by
  induction enclosed with
  | roots => exact .roots
  | inside _ member _ ih => exact .children ih member

section

variable {source : Text} {symbols after : SymbolTable} {list : List Chunk} {tag : Tag} {stop : Nat}
  {children : List Node}

/-- What an element comes to stands among what its row comes to. -/
theorem element_in_row {row : List Node} {cursor hi : Nat} (quiet : Quiet source row)
    (member : .element tag stop children ∈ row) (open_tag : Walk.declarationOf? .default tag = none)
    (h : pieces? Program.dialect source symbols (layout .default source cursor hi none row) = some (list, after)) :
    ∃ before heads inside ends behind, list = before ++ (heads ++ (inside ++ (ends ++ behind))) ∧
      Chunk.Balanced before ∧ ElementPieces source tag stop children heads inside ends := by
  induction row generalizing cursor symbols list with
  | nil => exact absurd member List.not_mem_nil
  | cons node row ih =>
    cases node with
    | comment span =>
      rw [layout_comment, quiet _ .roots _ List.mem_cons_self span rfl] at h
      rcases List.mem_cons.mp member with eq | member
      · cases eq
      · exact ih quiet.rest member h
    | element tag' stop' children' =>
      rw [layout, List.cons_append] at h
      obtain ⟨piece, others, between, first, later, rfl⟩ := pieces?_cons h
      obtain ⟨rfl, rfl⟩ := Prod.mk.inj (Option.some.inj first)
      obtain ⟨own, behind, between', element, last, rfl⟩ := pieces?_append later
      rcases List.mem_cons.mp member with eq | member
      · obtain ⟨rfl, rfl, rfl⟩ := Node.element.inj eq
        obtain ⟨heads, inside, ends, rfl, pieces⟩ := elementPieces open_tag element
        exact ⟨[.text (source.at ⟨cursor, tag.span.start⟩)], heads, inside, ends, behind,
          by simp only [List.append_assoc, List.cons_append, List.nil_append], Chunk.balanced_text _, pieces⟩
      · obtain ⟨before, heads, inside, ends, rest, rfl, balanced, pieces⟩ := ih quiet.rest member last
        have first := balanced_element (balanced_layout children'
          (quiet.siblings (.children .roots List.mem_cons_self))) element
        exact ⟨.text (source.at ⟨cursor, tag'.span.start⟩) :: (own ++ before), heads, inside, ends, rest,
          by simp only [List.append_assoc, List.cons_append], (Chunk.balanced_text _).append (first.append balanced),
          pieces⟩

/-- What a row that is no part of a macro comes to stands in the document where just the blocks of the elements
around the row are open. -/
theorem row_in_document {roots row : List Node} {outer : List Tag} {cursor hi : Nat} (quiet : Quiet source roots)
    (enclosed : Enclosed roots outer row)
    (h : pieces? Program.dialect source symbols (layout .default source cursor hi none roots) = some (list, after)) :
    ∃ before own behind start stop known known', list = before ++ (own ++ behind) ∧
      pieces? Program.dialect source known (layout .default source start stop none row) = some (own, known') ∧
      (∀ code ∈ Chunk.codes before, Program.InOrder code) ∧
      Program.blocksAfter [] (Chunk.codes before) = some (outer.flatMap Tag.blockWords) := by
  induction enclosed with
  | roots =>
    exact ⟨[], list, [], cursor, hi, symbols, after, by rw [List.nil_append, List.append_nil], h,
      fun _ member => absurd member List.not_mem_nil, rfl⟩
  | @inside outer row children tag stop enclosed member open_tag ih =>
    obtain ⟨before, own, behind, start, hi', known, known', rfl, row_pieces, inOrder, blocks⟩ := ih
    obtain ⟨front, heads, inside, ends, rest, rfl, balanced, pieces⟩ :=
      element_in_row (quiet.siblings enclosed.siblings) member open_tag row_pieces
    obtain ⟨_, between, known'', _, kept⟩ := pieces.opened
    obtain ⟨own_tag, below, table, one, two, rfl⟩ := pieces?_append kept
    obtain ⟨heads_inOrder, _, opens, _⟩ := pieces.blocks (outer.flatMap Tag.blockWords)
    have tag_balanced := balanced_tagLayout one
    refine ⟨before ++ (front ++ (heads ++ own_tag)), below, ends ++ (rest ++ behind), tag.span.stop, stop, table,
      known'', by simp only [List.append_assoc], two, fun code inside => ?_, ?_⟩
    · simp only [Chunk.codes_append, List.mem_append] at inside
      rcases inside with inside | inside | inside | inside
      · exact inOrder code inside
      · exact balanced.inOrder code inside
      · exact heads_inOrder code inside
      · exact tag_balanced.inOrder code inside
    · simp only [Chunk.codes_append, Program.blocksAfter_append, blocks, Option.bind_some, balanced.blocks, opens,
        tag_balanced.blocks, List.flatMap_cons]

end

namespace ProgramDraft

/-- Between `heads` and `ends` there stand the blocks of the words `own`, inside the blocks of the words `outer`
and no others: those are open after the chunks before, `heads` opens the blocks of `own` in addition, whatever
comes in between closes none of them and leaves none open, and `ends` closes just them. -/
def Encloses (outer own : List Text) (before heads inside ends : List Chunk) : Prop :=
  ∀ d, through {} before = .ok d → openWords d.opened = outer ∧
    ∀ d1, d.through heads = .ok d1 → ∃ new, openWords new = own ∧ d1.opened = new ++ d.opened ∧
      (∀ first rest d2, inside = first ++ rest → d1.through first = .ok d2 →
        ∃ deeper, d2.opened = deeper ++ d1.opened) ∧
      ∀ d2, d1.through inside = .ok d2 → d2.opened = d1.opened ∧
        ∀ d3, d2.through ends = .ok d3 → d3.opened = d.opened

open Program (InOrder blocksAfter)

theorem encloses {outer own : List Text} {before heads inside ends : List Chunk}
    (inOrder : ∀ code ∈ Chunk.codes (before ++ (heads ++ (inside ++ ends))), InOrder code)
    (opened : blocksAfter [] (Chunk.codes before) = some outer)
    (opens : blocksAfter [] (Chunk.codes heads) = some own)
    (kept : blocksAfter [] (Chunk.codes inside) = some [])
    (closes : blocksAfter own (Chunk.codes ends) = some []) : Encloses outer own before heads inside ends := by
  simp only [Chunk.codes_append, List.forall_mem_append] at inOrder
  obtain ⟨before_inOrder, heads_inOrder, inside_inOrder, ends_inOrder⟩ := inOrder
  intro d first
  have start : ({} : ProgramDraft).Sound := fun word member => absurd member List.not_mem_nil
  obtain ⟨sound, outside, eq, words⟩ := (@through_blocks {} before [] [] outer before_inOrder start rfl opened).2 d first
  rw [List.append_nil] at eq
  refine ⟨eq ▸ words, fun d1 second => ?_⟩
  obtain ⟨sound1, new, opened1, new_words⟩ :=
    (@through_blocks d heads [] d.opened own heads_inOrder sound rfl opens).2 d1 second
  refine ⟨new, new_words, opened1, fun part rest d2 split third => ?_, fun d2 third => ?_⟩
  · rw [split, Chunk.codes_append, Program.blocksAfter_append] at kept
    rw [split, Chunk.codes_append, List.forall_mem_append] at inside_inOrder
    obtain ⟨deeper, partly, _⟩ := Option.bind_eq_some_iff.mp kept
    obtain ⟨_, further, opened2, _⟩ :=
      (@through_blocks d1 part [] d1.opened deeper inside_inOrder.1 sound1 rfl partly).2 d2 third
    exact ⟨further, opened2⟩
  · obtain ⟨sound2, nothing, opened2, none⟩ :=
      (@through_blocks d1 inside [] d1.opened [] inside_inOrder sound1 rfl kept).2 d2 third
    rw [List.map_eq_nil_iff.mp none, List.nil_append] at opened2
    refine ⟨opened2, fun d3 last => ?_⟩
    rw [← new_words] at closes
    obtain ⟨_, nothing, opened3, none⟩ := (@through_blocks d2 ends new d.opened [] ends_inOrder sound2
      (opened2.trans opened1) closes).2 d3 last
    rw [opened3, List.map_eq_nil_iff.mp none, List.nil_append]

end ProgramDraft

/-- Among the chunks, the codes of the statements of an element stand in front of just what is kept of the
element, one end for each of their blocks stands behind it, and their blocks are open in between, inside the
blocks of `outer`. -/
def Enclosing (source : Text) (outer : List Text) (tag : Tag) (stop : Nat) (children : List Node)
    (chunks : List Chunk) : Prop :=
  ∃ before heads kept after table table' table'',
    chunks = before ++ (heads ++ (Chunk.merged kept ++
      (List.replicate tag.blockWords.length (.code 0 "end:") ++ after))) ∧
    pieces? Program.dialect source table ((Walk.statementsOf .default tag).map fun statement =>
      .statement statement.2.reach.length (statement.2.statement statement.1)) = some (heads, table') ∧
    pieces? Program.dialect source table'
      (tagLayout tag.span.start tag.span.stop ((Walk.statementsOf .default tag).map Prod.snd) ++
        layout .default source tag.span.stop stop none children) = some (kept, table'') ∧
    ProgramDraft.Encloses outer tag.blockWords before heads (Chunk.merged kept)
      (List.replicate tag.blockWords.length (.code 0 "end:"))

section

variable {source : Text} {symbols table : SymbolTable} {list : List Chunk} {tag : Tag} {stop : Nat}
  {children : List Node}

/-- The chunks around an element with a block, as they stand in the document. -/
theorem ElementPieces.merged {heads inside ends : List Chunk}
    (pieces : ElementPieces source tag stop children heads inside ends) (blocks : tag.blockWords ≠ [])
    (before after : List Chunk) :
    Chunk.merged (before ++ (heads ++ (inside ++ (ends ++ after)))) =
      Chunk.merged before ++ (heads ++ (Chunk.merged inside ++
        (List.replicate tag.blockWords.length (.code 0 "end:") ++ Chunk.merged after))) := by
  obtain ⟨_, _, _, first, _⟩ := pieces.opened
  obtain ⟨_, heads_codes, opens⟩ := blocksAfter_statements [] first
  have some_heads : heads ≠ [] := by
    rintro rfl
    rw [List.append_nil] at opens
    exact blocks (Option.some.inj opens).symm
  have ends_codes : ∀ chunk ∈ List.replicate tag.blockWords.length (Chunk.code 0 "end:"), chunk.isCode = true :=
    fun chunk inside => (List.mem_replicate.mp inside).2 ▸ rfl
  have some_ends : List.replicate tag.blockWords.length (Chunk.code 0 "end:") ≠ [] := by
    rw [Ne, List.replicate_eq_nil_iff]
    exact fun none => blocks (List.length_eq_zero_iff.mp none)
  rw [Chunk.merged_around heads_codes some_heads, ← Chunk.merged_around ends_codes some_ends]
  congr 2
  refine Chunk.merged_append_congr inside ?_
  rw [pieces.closed, merged_closings, ← tag.length_blockWords, Chunk.merged_append_of_codes ends_codes]

theorem ElementPieces.codes_ends {heads inside ends : List Chunk}
    (pieces : ElementPieces source tag stop children heads inside ends) :
    Chunk.codes (List.replicate tag.blockWords.length (.code 0 "end:")) = Chunk.codes ends := by
  have same := congrArg Chunk.codes (merged_closings ((Walk.statementsOf .default tag).map Prod.fst).reverse [])
  rw [Chunk.codes_merged, List.append_nil, ← pieces.closed, ← tag.length_blockWords] at same
  rw [same]
  exact congrArg Chunk.codes (List.append_nil _).symm

/-- The statements of an element stand around it in what the nodes of a source come to. -/
theorem element_enclosing {roots row : List Node} {outer : List Tag} {cursor hi : Nat} (quiet : Quiet source roots)
    (h : pieces? Program.dialect source symbols (layout .default source cursor hi none roots) = some (list, table))
    (enclosed : Enclosed roots outer row) (member : .element tag stop children ∈ row)
    (open_tag : Walk.declarationOf? .default tag = none) (blocks : tag.blockWords ≠ []) :
    Enclosing source (outer.flatMap Tag.blockWords) tag stop children (Chunk.merged list) := by
  have all := (balanced_layout roots quiet h).inOrder
  have row_quiet := quiet.siblings enclosed.siblings
  obtain ⟨before, own, behind, start, hi', _, _, rfl, row_pieces, _, outer_blocks⟩ :=
    row_in_document quiet enclosed h
  obtain ⟨front, heads, kept, ends, rest, rfl, front_balanced, element⟩ :=
    element_in_row row_quiet member open_tag row_pieces
  obtain ⟨known, known', known'', first, second⟩ := element.opened
  obtain ⟨_, _, opens, closes⟩ := element.blocks []
  rw [List.append_nil] at opens closes
  refine ⟨Chunk.merged (before ++ front), heads, kept, Chunk.merged (rest ++ behind), known, known', known'', ?_,
    first, second, ProgramDraft.encloses (fun code inside => all code ?_) ?_ opens ?_ ?_⟩
  · rw [← element.merged blocks]
    simp only [List.append_assoc]
  · simp only [Chunk.codes_append, Chunk.codes_merged, element.codes_ends, List.mem_append] at inside ⊢
    rcases inside with (inside | inside) | inside | inside | inside
    · exact .inl inside
    · exact .inr (.inl (.inl inside))
    · exact .inr (.inl (.inr (.inl inside)))
    · exact .inr (.inl (.inr (.inr (.inl inside))))
    · exact .inr (.inl (.inr (.inr (.inr (.inl inside)))))
  · rw [Chunk.codes_merged, Chunk.codes_append, Program.blocksAfter_append, outer_blocks, Option.bind_some,
      front_balanced.blocks]
  · obtain ⟨own_tag, below, _, one, two, rfl⟩ := pieces?_append second
    rw [Chunk.codes_merged]
    exact ((balanced_tagLayout one).append (balanced_layout children
      (row_quiet.siblings (.children .roots member)) two)).blocks []
  · rw [element.codes_ends]
    exact closes

end

section

variable {Compiled : Type} {parser : Parser Compiled} {stream : Bool} {depth : Nat} {resource : Resource}
  {events : List Event} {template found : ParsedTemplate Compiled} {path : List Text}

/-- Where no comment of a source is a directive and no mark that encloses code stands in it or in the value of
an attribute, the program of the template and that of every macro in it, at any depth, have nothing misplaced
in them, whatever the markup is like. The statements of an element stand around just that element, and their
blocks in those of the elements around it. -/
theorem blocks_nest_as_elements (names : parser.names = .default) (demo : parser.dialect = Program.dialect)
    (parsed : parser.parseWithin stream depth resource = (events, .ok template))
    (unmarked : resource.source.Unmarked) (uncommented : resource.source.Uncommented .default)
    (reached : template.at? path = some found) (size : found.resource.source.byteSize < Marker.lengthBound) :
    (∀ e, Program.ofChunks found.chunks = .error e → ¬ e.IsMisplaced) ∧
      ∀ outer row tag stop children, Enclosed found.resource.source.nodes outer row →
        .element tag stop children ∈ row → Walk.declarationOf? .default tag = none → tag.blockWords ≠ [] →
        Enclosing found.resource.source (outer.flatMap Tag.blockWords) tag stop children found.chunks := by
  have word : IsAttributeWord (parser.names.name .var) := names ▸ DirectiveNames.isAttributeWord_var
  let holds (source : Text) : Prop := source.Unmarked ∧ source.Uncommented parser.names
  have inherits (source : Text) (head : MacroHead) (body : MacroBody)
      (held : HoldsMacro parser.names source head body) (here : holds source) : holds body.text :=
    ⟨held.unmarked (names ▸ DirectiveNames.plain_var) word here.1, held.uncommented word here.2⟩
  have own : holds resource.source := ⟨unmarked, by rw [names]; exact uncommented⟩
  obtain ⟨below, events', parsed', _, ⟨unmarked', uncommented'⟩, _⟩ := Parser.parsed_at inherits parsed own reached
  obtain ⟨list, pieces, chunks⟩ := Parser.chunks_of_unmarked demo size unmarked' parsed'
  rw [names] at uncommented' pieces
  have quiet := uncommented'.quiet
  have balanced := balanced_layout found.resource.source.nodes quiet pieces
  rw [chunks]
  refine ⟨fun e failed => ?_, fun outer row tag stop children enclosed member open_tag blocks =>
    element_enclosing quiet pieces enclosed member open_tag blocks⟩
  refine Program.not_isMisplaced ?_ ?_ failed
  · rw [Chunk.codes_merged]
    exact balanced.inOrder
  · rw [Chunk.codes_merged]
    exact balanced.blocks []

end

/-- An item of a list that is a macro, with a loop and a condition, and another condition inside. Neither the item
nor what is in it is closed. -/
theorem blocks_nest_in_unclosed_item :
    let parser : Parser Unit := ⟨.default, Program.dialect, ⟨fun _ => .ok ()⟩⟩
    let resource : Resource :=
      { name := "t", source := "<ul macro='m'><li foreach='x : xs' if='x'>${x}<b if='y'>z</ul>" }
    let condition : Tag := ⟨"b", [⟨"if", some "y", ⟨39, 45⟩, some 43⟩], ⟨36, 46⟩⟩
    resource.source.Unmarked ∧ resource.source.Uncommented .default ∧
      ∃ events template found, parser.parse false resource = (events, .ok template) ∧
        template.at? ["m"] = some found ∧
        found.resource.source = "<ul><li foreach='x : xs' if='x'>${x}<b if='y'>z</ul>" ∧
        (∀ e, Program.ofChunks found.chunks = .error e → ¬ e.IsMisplaced) ∧
        Enclosing found.resource.source ["if", "foreach"] condition 47 [] found.chunks := by
  intro parser resource condition
  have unmarked : resource.source.Unmarked := by decide +kernel
  have uncommented : resource.source.Uncommented .default := by decide +kernel
  refine ⟨unmarked, uncommented, ?_⟩
  let body : Text := "<ul><li foreach='x : xs' if='x'>${x}<b if='y'>z</ul>"
  have macros : ((parser.parse false resource).2.toOption.bind (·.at? ["m"])).map (·.resource.source) = some body := by
    decide +kernel
  cases parsed : parser.parse false resource with
  | mk events result =>
    rw [parsed] at macros
    cases result with
    | error e => cases macros
    | ok template =>
      obtain ⟨found, reached, source⟩ := Option.map_eq_some_iff.mp macros
      have size : found.resource.source.byteSize < Marker.lengthBound := by
        rw [source]
        decide +kernel
      obtain ⟨sound, elements⟩ := blocks_nest_as_elements rfl rfl parsed unmarked uncommented reached size
      refine ⟨events, template, found, rfl, reached, source, sound, ?_⟩
      let item : Tag :=
        ⟨"li", [⟨"foreach", some "x : xs", ⟨8, 24⟩, some 17⟩, ⟨"if", some "x", ⟨25, 31⟩, some 29⟩], ⟨4, 32⟩⟩
      have nodes : found.resource.source.nodes =
          [.element ⟨"ul", [], ⟨0, 4⟩⟩ 52 [.element item 47 [.element condition 47 []]]] := by
        rw [source]
        decide +kernel
      have enclosed : Enclosed found.resource.source.nodes [item, ⟨"ul", [], ⟨0, 4⟩⟩] [.element condition 47 []] := by
        rw [nodes]
        exact .inside (.inside .roots List.mem_cons_self rfl) List.mem_cons_self rfl
      exact elements _ _ condition 47 [] enclosed List.mem_cons_self rfl (by decide)

end MarkupTemplates
