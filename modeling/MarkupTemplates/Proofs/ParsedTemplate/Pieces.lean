import MarkupTemplates.Proofs.ParsedTemplate.Agenda
import MarkupTemplates.Proofs.Program.Codes
import MarkupTemplates.Proofs.Text.Chunks

namespace MarkupTemplates

/-- The chunk that a part becomes, and what is known of names after it. -/
def Part.piece? (dialect : Dialect) (source : Text) (symbols : SymbolTable) :
    Part → Option (Chunk × SymbolTable)
  | kept span => some (.text (source.at span), symbols)
  | statement length directive =>
    match dialect.statement directive symbols with
    | .ok (code, symbols) => some (.code length code, symbols)
    | .error _ => none
  | ending length name => some (.code length (dialect.ending name), symbols)
  | binding length directive value =>
    match MacroHead.read directive value with
    | .error _ => none
    | .ok head =>
      match symbols.declare head.name templateType with
      | .ok symbols => some (.code length (dialect.binding head.name), symbols)
      | .error _ => none
  | closing name =>
    some (if dialect.ending name = [] then .text [] else .code 0 (dialect.ending name), symbols)
  | dropped _ => some (.text [], symbols)

/-- The chunks that parts become, one for each. -/
def pieces? (dialect : Dialect) (source : Text) (symbols : SymbolTable) :
    List Part → Option (List Chunk × SymbolTable)
  | [] => some ([], symbols)
  | part :: rest =>
    match part.piece? dialect source symbols with
    | none => none
    | some (piece, symbols) =>
      (pieces? dialect source symbols rest).map fun (list, symbols) => (piece :: list, symbols)

/-- The bytes of the source that the code of a part stands for. -/
def Part.codeLength : Part → Nat
  | statement length _ => length
  | ending length _ => length
  | binding length _ _ => length
  | _ => 0

theorem Part.written?_eq_piece (dialect : Dialect) (source : Text) (symbols : SymbolTable) (part : Part) :
    part.written? dialect source symbols =
      (part.piece? dialect source symbols).map fun (piece, symbols) => (piece.written, symbols) := by
  cases part with
  | statement length directive =>
    rw [written?, piece?]
    cases dialect.statement directive symbols <;> rfl
  | binding length directive value =>
    rw [written?, piece?]
    cases MacroHead.read directive value with
    | error e => rfl
    | ok head => cases h : symbols.declare head.name templateType <;> simp only [h] <;> rfl
  | closing name =>
    rw [written?, piece?]
    by_cases none : dialect.ending name = []
    · rw [if_pos none, if_pos none]
      rfl
    · rw [if_neg none, if_neg none]
      rfl
  | _ => rfl

/-- What is written for parts is the document of their chunks. -/
theorem written?_eq_pieces (dialect : Dialect) (source : Text) (symbols : SymbolTable) (parts : List Part) :
    written? dialect source symbols parts =
      (pieces? dialect source symbols parts).map fun (list, symbols) => (Chunk.document list, symbols) := by
  induction parts generalizing symbols with
  | nil => rfl
  | cons part rest ih =>
    rw [written?, pieces?, part.written?_eq_piece]
    cases part.piece? dialect source symbols with
    | none => rfl
    | some found =>
      obtain ⟨piece, symbols'⟩ := found
      simp only [Option.map_some, ih]
      cases pieces? dialect source symbols' rest <;> rfl

/-- Every chunk is that of a part. -/
theorem exists_part_of_mem_pieces {dialect : Dialect} {source : Text} {symbols after : SymbolTable}
    {parts : List Part} {list : List Chunk} (h : pieces? dialect source symbols parts = some (list, after))
    {chunk : Chunk} (member : chunk ∈ list) :
    ∃ part ∈ parts, ∃ before between, part.piece? dialect source before = some (chunk, between) := by
  induction parts generalizing symbols list after with
  | nil =>
    obtain ⟨rfl, _⟩ := Prod.mk.inj (Option.some.inj h)
    exact absurd member List.not_mem_nil
  | cons part rest ih =>
    rw [pieces?] at h
    cases found : part.piece? dialect source symbols with
    | none =>
      rw [found] at h
      exact absurd h nofun
    | some read =>
      obtain ⟨piece, between⟩ := read
      rw [found] at h
      obtain ⟨⟨others, _⟩, later, eq⟩ := Option.map_eq_some_iff.mp h
      obtain ⟨rfl, _⟩ := Prod.mk.inj eq
      rcases List.mem_cons.mp member with rfl | member
      · exact ⟨part, List.mem_cons_self, symbols, between, found⟩
      · obtain ⟨other, inside, here⟩ := ih later member
        exact ⟨other, List.mem_cons_of_mem _ inside, here⟩

/-- A part becomes text of the source or the code of a directive. -/
theorem Part.piece_cases {dialect : Dialect} {source : Text} {symbols after : SymbolTable} {part : Part}
    {piece : Chunk} (h : part.piece? dialect source symbols = some (piece, after)) :
    (∃ t, piece = .text t ∧ t ⊆ source) ∨ ∃ inner, piece = .code part.codeLength inner ∧
      ((∃ own directive, part = .statement own directive ∧
          dialect.statement directive symbols = .ok (inner, after)) ∨
        (∃ name, inner = dialect.ending name) ∨
        ∃ directive value head, MacroHead.read directive value = .ok head ∧ inner = dialect.binding head.name) := by
  cases part with
  | kept span =>
    obtain ⟨rfl, _⟩ := Prod.mk.inj (Option.some.inj h)
    exact .inl ⟨_, rfl, Text.slice_subset source _ _⟩
  | dropped comment =>
    obtain ⟨rfl, _⟩ := Prod.mk.inj (Option.some.inj h)
    exact .inl ⟨[], rfl, List.nil_subset _⟩
  | ending own name =>
    obtain ⟨rfl, _⟩ := Prod.mk.inj (Option.some.inj h)
    exact .inr ⟨_, rfl, .inr (.inl ⟨name, rfl⟩)⟩
  | closing name =>
    obtain ⟨rfl, _⟩ := Prod.mk.inj (Option.some.inj h)
    split
    · exact .inl ⟨[], rfl, List.nil_subset _⟩
    · exact .inr ⟨_, rfl, .inr (.inl ⟨name, rfl⟩)⟩
  | statement own directive =>
    rw [piece?] at h
    cases coded : dialect.statement directive symbols with
    | error e =>
      rw [coded] at h
      cases h
    | ok answer =>
      rw [coded] at h
      obtain ⟨rfl, rfl⟩ := Prod.mk.inj (Option.some.inj h)
      exact .inr ⟨_, rfl, .inl ⟨own, directive, rfl, coded⟩⟩
  | binding own directive value =>
    rw [piece?] at h
    cases read : MacroHead.read directive value with
    | error e =>
      rw [read] at h
      cases h
    | ok head =>
      simp only [read] at h
      split at h
      · obtain ⟨rfl, _⟩ := Prod.mk.inj (Option.some.inj h)
        exact .inr ⟨_, rfl, .inr (.inr ⟨directive, value, head, read, rfl⟩)⟩
      · cases h

/-- The code of a part is as long as the part says, and holds a mark only if the value of a statement
does. -/
theorem code_of_piece {source : Text} {symbols after : SymbolTable} {part : Part} {length : Nat} {inner : Text}
    (h : part.piece? Program.dialect source symbols = some (.code length inner, after)) :
    length = part.codeLength ∧
      ((∀ own directive, part = .statement own directive → directive.value.Plain) → inner.Plain) := by
  rcases part.piece_cases h with ⟨t, eq, _⟩ | ⟨code, eq, origin⟩
  · cases eq
  · obtain ⟨rfl, rfl⟩ := Chunk.code.inj eq
    refine ⟨rfl, fun plain => ?_⟩
    rcases origin with ⟨own, directive, rfl, coded⟩ | ⟨name, rfl⟩ | ⟨directive, value, head, read, rfl⟩
    · exact Program.statementCode_plain coded (plain own directive rfl)
    · exact Program.endingCode_plain name
    · have word : Text.Plain "bind:" := by decide
      exact word.append (MacroHead.plain_name read)

theorem text_of_piece {dialect : Dialect} {source : Text} {symbols after : SymbolTable} {part : Part} {t : Text}
    (h : part.piece? dialect source symbols = some (.text t, after)) : t ⊆ source := by
  rcases part.piece_cases h with ⟨own, eq, inside⟩ | ⟨code, eq, _⟩
  · obtain rfl := Chunk.text.inj eq
    exact inside
  · cases eq

theorem codeLength_tagLayout {cursor stop : Nat} {attributes : List Attribute} (part : Part)
    (member : part ∈ tagLayout cursor stop attributes) : part.codeLength = 0 := by
  induction attributes generalizing cursor with
  | nil =>
    rw [List.mem_singleton.mp member]
    rfl
  | cons a rest ih =>
    rcases List.mem_cons.mp member with rfl | member
    · rfl
    · exact ih member

/-- No code stands for more of a source than there is. -/
theorem Placed.codeLength_le {names : DirectiveNames} {source : Text} {lo hi : Nat} {nodes : List Node}
    (placed : Placed source lo hi nodes) (cursor : Nat) (opened : Option OpenMacro) :
    ∀ part ∈ layout names source cursor hi opened nodes, part.codeLength ≤ hi := by
  induction placed generalizing cursor opened with
  | nil => cases opened <;> simp [layout, Part.codeLength]
  | @comment lo hi span rest _ _ _ _ content ih =>
    have inside := content.le
    rw [layout_comment]
    cases role : commentRole names source opened span with
    | text => exact ih cursor opened
    | statement directive =>
      simp only [List.forall_mem_cons]
      exact ⟨Nat.zero_le _, Nat.le_trans (Nat.sub_le _ _) inside, ih span.stop none⟩
    | ending name =>
      simp only [List.forall_mem_cons]
      exact ⟨Nat.zero_le _, Nat.le_trans (Nat.sub_le _ _) inside, ih span.stop none⟩
    | opensMacro next =>
      cases opened <;> simp only [List.nil_append, List.cons_append, List.forall_mem_cons]
      · exact ⟨Nat.zero_le _, ih span.stop (some next)⟩
      · exact ⟨Nat.zero_le _, Nat.zero_le _, ih span.stop (some next)⟩
    | closesMacro found =>
      simp only [List.forall_mem_cons]
      exact ⟨Nat.le_trans (Nat.sub_le _ _) inside, ih span.stop none⟩
  | @element lo hi stop tag children rest _ _ attributes _ content _ others ihContent ih =>
    have inside := content.le
    have behind := others.le
    cases opened with
    | some opened => exact ih cursor (some opened)
    | none =>
      suffices own : ∀ part ∈ (Node.element tag stop children).layout names source, part.codeLength ≤ stop by
        rw [layout, List.cons_append, List.forall_mem_cons, List.forall_mem_append]
        exact ⟨Nat.zero_le _, fun part member => Nat.le_trans (own part member) behind, ih stop none⟩
      rw [Node.layout]
      cases Walk.declarationOf? names tag with
      | some declaration =>
        simp only [List.forall_mem_singleton]
        exact Nat.sub_le _ _
      | none =>
        simp only [List.forall_mem_append]
        refine ⟨⟨⟨?_, ?_⟩, ihContent tag.span.stop none⟩, ?_⟩
        · intro part member
          obtain ⟨statement, found, rfl⟩ := List.mem_map.mp member
          have placed := (attributes.of_mem ((statementsOf_sublist names tag).subset
            (List.mem_map.mpr ⟨statement, found, rfl⟩))).2.2.2.1
          exact Nat.le_trans (Nat.sub_le _ _) (Nat.le_trans placed inside)
        · exact fun part member => Nat.le_trans (Nat.le_of_eq (codeLength_tagLayout part member)) (Nat.zero_le _)
        · intro part member
          obtain ⟨_, _, rfl⟩ := List.mem_map.mp (List.mem_reverse.mp member)
          exact Nat.zero_le _

variable {Compiled : Type} {parser : Parser Compiled} {stream : Bool} {depth : Nat} {resource : Resource}
  {events : List Event} {template : ParsedTemplate Compiled}

/-- The chunks of a document whose directives have been replaced are the text that was kept and the code
that was put in, just if no code holds one of the marks that enclose code and no text between pieces of
code reads as code itself. So it is where neither the source nor the value of a statement, with character
references resolved, holds such a mark. -/
theorem chunks_eq_pieces_iff (demo : parser.dialect = Program.dialect)
    (size : resource.source.byteSize < Marker.lengthBound)
    (parsed : parser.parseWithin stream depth resource = (events, .ok template)) :
    let source := resource.source
    let parts := layout parser.names source 0 source.byteSize none source.nodes
    ∃ list, pieces? Program.dialect source {} parts = some (list, template.symbols) ∧
      template.code = Chunk.document list ∧
      (template.chunks = Chunk.merged list ↔
        (∀ length inner, .code length inner ∈ list → inner.Plain) ∧
          ∀ t, .text t ∈ Chunk.merged list → ∀ length inner, .code length inner ∉ Text.chunks t) ∧
      (source.Plain → (∀ length directive, .statement length directive ∈ parts → directive.value.Plain) →
        template.chunks = Chunk.merged list) := by
  intro source parts
  have written := parser.parseWithin_written parsed
  rw [demo, written?_eq_pieces] at written
  obtain ⟨⟨list, symbols⟩, pieces, eq⟩ := Option.map_eq_some_iff.mp written
  obtain ⟨code, rfl⟩ := Prod.mk.inj eq
  have lengths : ∀ length inner, .code length inner ∈ list → length < Marker.lengthBound := by
    intro length inner member
    obtain ⟨part, found, _, _, piece⟩ := exists_part_of_mem_pieces pieces member
    rw [(code_of_piece piece).1]
    exact Nat.lt_of_le_of_lt ((placed_nodes source).codeLength_le 0 none part found) size
  have reads : template.chunks = Chunk.merged list ↔
      (∀ length inner, .code length inner ∈ list → inner.Plain) ∧
        ∀ t, .text t ∈ Chunk.merged list → ∀ length inner, .code length inner ∉ Text.chunks t := by
    rw [ParsedTemplate.chunks, ← code, Chunk.chunks_document_iff]
    refine and_congr_left fun _ => ⟨fun clean length inner member => (clean length inner member).2, ?_⟩
    exact fun plain length inner member => ⟨lengths length inner member, plain length inner member⟩
  refine ⟨list, pieces, code.symm, reads, fun plain values => reads.mpr ⟨?_, ?_⟩⟩
  · intro length inner member
    obtain ⟨part, found, _, _, piece⟩ := exists_part_of_mem_pieces pieces member
    exact (code_of_piece piece).2 fun own directive eq => values own directive (eq ▸ found)
  · intro t member
    refine Text.no_code_of_plain fun mark => ?_
    obtain ⟨s, found, inside⟩ := Chunk.mem_text_merged member mark
    obtain ⟨_, _, _, _, piece⟩ := exists_part_of_mem_pieces pieces found
    exact absurd (plain _ (text_of_piece piece inside)) (by decide)

/-- A condition with a character reference, and the end of a loop. -/
theorem chunks_eq_pieces_of_condition :
    let parser : Parser Unit := ⟨.default, Program.dialect, ⟨fun _ => .ok ()⟩⟩
    let resource : Resource := { name := "t", source := "<p if='a &lt; b'>é</p>z<!-- end='foreach' -->" }
    let parts := layout .default resource.source 0 resource.source.byteSize none resource.source.nodes
    resource.source.byteSize < Marker.lengthBound ∧ resource.source.Plain ∧
      (∀ length directive, .statement length directive ∈ parts → directive.value.Plain) ∧
      ∃ events template, parser.parseWithin false 1 resource = (events, .ok template) ∧
        template.chunks = [.code 14 "if:a < b", .text "<p>é</p>", .code 0 "end:", .text "z", .code 22 "end:"] := by
  intro parser resource parts
  have size : resource.source.byteSize < Marker.lengthBound := by decide +kernel
  have plain : resource.source.Plain := by decide +kernel
  have values : ∀ part ∈ parts, (match part with
      | .statement _ directive => decide directive.value.Plain
      | _ => true) = true := by decide +kernel
  have values : ∀ length directive, .statement length directive ∈ parts → directive.value.Plain :=
    fun length directive member => of_decide_eq_true (values _ member)
  have pieces : (pieces? Program.dialect resource.source {} parts).map (Chunk.merged ∘ Prod.fst) =
      some [.code 14 "if:a < b", .text "<p>é</p>", .code 0 "end:", .text "z", .code 22 "end:"] := by decide +kernel
  have succeeds : (parser.parseWithin false 1 resource).2.isOk = true := by decide +kernel
  refine ⟨size, plain, values, ?_⟩
  obtain ⟨events, template, parsed⟩ := Parser.exists_of_isOk succeeds
  obtain ⟨list, found, _, _, reads⟩ := chunks_eq_pieces_iff rfl size parsed
  rw [found] at pieces
  exact ⟨events, template, parsed, (reads plain values).trans (Option.some.inj pieces)⟩

/-- A text without any directive, which is kept as it is and reads as code. -/
theorem text_read_as_code :
    let parser : Parser Unit := ⟨.default, Program.dialect, ⟨fun _ => .ok ()⟩⟩
    let resource : Resource := { name := "t", source := "\x021:if:x\x03" }
    let parts := layout .default resource.source 0 resource.source.byteSize none resource.source.nodes
    ∃ events template, parser.parse false resource = (events, .ok template) ∧ template.directives = 0 ∧
      parts = [.kept ⟨0, 8⟩] ∧
      (pieces? Program.dialect resource.source {} parts).map Prod.fst = some [.text "\x021:if:x\x03"] ∧
      template.chunks = [.code 1 "if:x"] := by
  intro parser resource parts
  have inner : Text.Plain "if:x" := by decide
  have clean : (Chunk.code 1 "if:x").Clean := ⟨by decide, inner⟩
  have read : Text.chunks resource.source = [.code 1 "if:x"] := by
    have spelled : resource.source = marker 1 "if:x" ++ [] := by decide +kernel
    rw [spelled, Text.chunks_marker clean, Text.chunks]
  have counted : (parser.parse false resource).2.toOption.map ParsedTemplate.directives = some 0 := by
    decide +kernel
  have kept : written? Program.dialect resource.source {} parts = some (resource.source, {}) := by decide +kernel
  cases parsed : parser.parse false resource with
  | mk events result =>
    rw [parsed] at counted
    cases result with
    | error e => simp [Except.toOption] at counted
    | ok template =>
      have written := parser.parseWithin_written parsed
      have code : template.code = resource.source :=
        (Prod.mk.inj (Option.some.inj (written.symm.trans kept))).1
      refine ⟨events, template, rfl, Option.some.inj counted, by decide +kernel, by decide +kernel, ?_⟩
      rw [ParsedTemplate.chunks, code, read]

end MarkupTemplates
