import MarkupTemplates.Proofs.ParsedTemplate.Offsets
import MarkupTemplates.Proofs.Program.Misreadings
import MarkupTemplates.Proofs.Text.Cuts
import MarkupTemplates.Template.Compiler

namespace MarkupTemplates

/-- The chunk of a part tells of as many bytes as the part. Text in it that is not empty is kept from the source. -/
theorem Part.chunk_of_piece {dialect : Dialect} {source : Text} {symbols after : SymbolTable} {part : Part}
    {chunk : Chunk} (h : part.piece? dialect source symbols = some (chunk, after)) :
    chunk.length = part.length source ∧
      ∀ t, chunk = .text t → t ≠ [] → ∃ span, part = .kept span ∧ source.at span = t := by
  cases part with
  | kept span =>
    obtain ⟨rfl, _⟩ := Prod.mk.inj (Option.some.inj h)
    exact ⟨rfl, fun t eq _ => ⟨span, rfl, Chunk.text.inj eq⟩⟩
  | dropped comment =>
    obtain ⟨rfl, _⟩ := Prod.mk.inj (Option.some.inj h)
    exact ⟨rfl, fun t eq some_text => absurd (Chunk.text.inj eq).symm some_text⟩
  | ending own name =>
    obtain ⟨rfl, _⟩ := Prod.mk.inj (Option.some.inj h)
    exact ⟨rfl, fun _ eq => Chunk.noConfusion eq⟩
  | closing name =>
    obtain ⟨rfl, _⟩ := Prod.mk.inj (Option.some.inj h)
    split
    · exact ⟨rfl, fun t eq some_text => absurd (Chunk.text.inj eq).symm some_text⟩
    · exact ⟨rfl, fun _ eq => Chunk.noConfusion eq⟩
  | statement own directive =>
    rw [piece?] at h
    split at h
    · obtain ⟨rfl, _⟩ := Prod.mk.inj (Option.some.inj h)
      exact ⟨rfl, fun _ eq => Chunk.noConfusion eq⟩
    · cases h
  | binding own directive value =>
    rw [piece?] at h
    split at h
    · cases h
    · split at h
      · obtain ⟨rfl, _⟩ := Prod.mk.inj (Option.some.inj h)
        exact ⟨rfl, fun _ eq => Chunk.noConfusion eq⟩
      · cases h

/-- Byte `p` of the source is kept behind the parts `ahead`, and it is the document behind `text` that it comes to. -/
def KeptBehind (dialect : Dialect) (source : Text) (parts ahead : List Part) (text : Text) (p : Nat) : Prop :=
  ∃ span behind, parts = ahead ++ .kept span :: behind ∧ span.start ≤ p ∧ p < span.stop ∧
    ∃ document symbols, written? dialect source {} ahead = some (document, symbols) ∧
      text = document ++ source.slice span.start p

/-- A character that chunks show is one of a text that is kept. -/
theorem Chunk.Shows.of_pieces {dialect : Dialect} {source text : Text} {symbols after : SymbolTable}
    {parts : List Part} {list : List Chunk} {n : Nat} {c : Char}
    (pieces : pieces? dialect source symbols parts = some (list, after)) (shows : Chunk.Shows list text n c) :
    ∃ ahead span behind front rest document between, parts = ahead ++ .kept span :: behind ∧
      source.at span = front ++ c :: rest ∧ n = lengthOf source ahead + Text.byteSize front ∧
      written? dialect source symbols ahead = some (document, between) ∧ text = document ++ front := by
  induction parts generalizing symbols list text n with
  | nil =>
    obtain ⟨rfl, _⟩ := Prod.mk.inj (Option.some.inj pieces)
    cases shows
  | cons part rest ih =>
    rw [pieces?] at pieces
    cases found : part.piece? dialect source symbols with
    | none =>
      rw [found] at pieces
      cases pieces
    | some read =>
      obtain ⟨piece, between⟩ := read
      rw [found] at pieces
      obtain ⟨⟨others, _⟩, later, eq⟩ := Option.map_eq_some_iff.mp pieces
      obtain ⟨rfl, rfl⟩ := Prod.mk.inj eq
      obtain ⟨length, kept⟩ := Part.chunk_of_piece found
      have written : part.written? dialect source symbols = some (piece.written, between) := by
        rw [part.written?_eq_piece, found]
        rfl
      rcases shows.cons_cases with ⟨tail, rfl, rfl⟩ | ⟨text', n', shown, rfl, rfl⟩
      · obtain ⟨span, rfl, here⟩ := kept _ rfl (by simp)
        exact ⟨[], span, rest, text, tail, [], symbols, rfl, here, (Nat.zero_add _).symm, rfl, rfl⟩
      · obtain ⟨ahead, span, behind, front, tail, document, last, rfl, here, rfl, told, rfl⟩ := ih later shown
        refine ⟨part :: ahead, span, behind, front, tail, piece.written ++ document, last, rfl, here, ?_, ?_, ?_⟩
        · rw [lengthOf, length, Nat.add_assoc]
        · rw [written?, written]
          simp only [told, Option.map_some]
        · rw [List.append_assoc]

/-- An error is located at a character of one byte just if it is reported there. -/
theorem ParseError.offset_locate_iff {fault : ParseFault} {resource : Resource} {p n : Nat} {c : Char}
    (stands : Stands resource.source p [c]) (one : c.utf8Size = 1) :
    (ParseError.locate fault resource n).offset = p ↔ n = p := by
  have behind : resource.source.IsBoundary (p + 1) := by
    have stop := stands.atStop
    rwa [Text.byteSize_cons, Text.byteSize_nil, one] at stop
  have below := Text.boundaryBefore_le resource.source n
  show resource.source.boundaryBefore n = p ↔ n = p
  constructor
  · intro located
    by_contra other
    have reached := Text.IsBoundary.le_boundaryBefore behind (show p + 1 ≤ n by omega)
    omega
  · rintro rfl
    exact Text.boundaryBefore_of_isBoundary stands.atStart

section

variable {parser : Parser TemplateClass} {stream : Bool} {resource : Resource} {events : List Event}
  {template : ParsedTemplate TemplateClass} {before after : List Chunk} {t front expression : Text}
  {d : ProgramDraft} {e : CodeError}

theorem Parser.compile_of_misread (compiler : parser.compiler = Program.compiler)
    (parsed : parser.parse stream resource = (events, .ok template))
    (chunks : template.chunks = before ++ .text t :: after) (read : ({} : ProgramDraft).through before = .ok d)
    (misread : Misread t front expression e) : parser.compile stream resource = (events, .error
      (.locate (.invalidTemplate resource.name e.message) resource (Chunk.lengths before + front.byteSize))) := by
  have refused : parser.compiler.compile template =
      .error { message := e.message, offset := some (Chunk.lengths before + front.byteSize) } := by
    rw [compiler]
    show (Program.ofChunks template.chunks >>= _) = _
    rw [chunks, Program.ofChunks_of_misread read misread]
    rfl
  rw [compile, parsed]
  simp only [refused]
  rfl

/-- The chunks of a document from an unmarked source, evaluated part by part. -/
theorem Parser.chunks_eq_of_unmarked (demo : parser.dialect = Program.dialect)
    (size : resource.source.byteSize < Marker.lengthBound) (unmarked : resource.source.Unmarked)
    (parsed : parser.parse stream resource = (events, .ok template)) {chunks : List Chunk}
    (pieces : (pieces? Program.dialect resource.source {} (layout parser.names resource.source 0
      resource.source.byteSize none resource.source.nodes)).map (Chunk.merged ∘ Prod.fst) = some chunks) :
    template.chunks = chunks := by
  obtain ⟨list, found, merged⟩ := Parser.chunks_of_unmarked demo size unmarked parsed
  rw [found] at pieces
  exact merged.trans (Option.some.inj pieces)

/-- Where the first thing that a program is refused for is an expression between text, the error is located at its
dollar sign, but for two things: the bytes of the statements behind it in the same start tag, whose code stands in
front of the tag, are counted, and those of the macro comments before it that others have superseded are not. -/
theorem interpolation_fault_place {fault : CodeError} (demo : parser.dialect = Program.dialect)
    (compiler : parser.compiler = Program.compiler) (size : resource.source.byteSize < Marker.lengthBound)
    (unmarked : resource.source.Unmarked) (parsed : parser.parse stream resource = (events, .ok template))
    (chunks : template.chunks = before ++ .text t :: after) (read : ({} : ProgramDraft).through before = .ok d)
    (refused : d.take (.text t) = .error fault) :
    let source := resource.source
    let parts := layout parser.names source 0 source.byteSize none source.nodes
    ∃ front expression e p ahead, Misread t front expression e ∧ Stands source p ['$'] ∧
      KeptBehind parser.dialect source parts ahead (Chunk.document before ++ front) p ∧
      let reported := ParseError.locate (.invalidTemplate resource.name e.message) resource
        (p + earlyIn p ahead - lostIn ahead)
      parser.compile stream resource = (events, .error reported) ∧
        (reported.offset = p ↔ earlyIn p ahead = lostIn ahead) := by
  intro source parts
  obtain ⟨front, expression, e, misread⟩ := ProgramDraft.exists_misread refused
  have compiled := Parser.compile_of_misread compiler parsed chunks read misread
  obtain ⟨_, rest, whole⟩ := misread.split
  obtain ⟨list, pieces, merged⟩ := Parser.chunks_of_unmarked demo size unmarked parsed
  have shows : Chunk.Shows list (Chunk.document before ++ front) (Chunk.lengths before + front.byteSize) '$' := by
    refine .of_merged ?_
    rw [← merged, chunks, whole]
    exact .of_split ..
  obtain ⟨ahead, span, behind, start, tail, document, symbols, split, here, bytes, written, told⟩ :=
    shows.of_pieces pieces
  obtain ⟨within, places⟩ := kept_place resource.source split
  have stands := within.stands
  rw [here] at stands
  have dollar : Stands source (span.start + Text.byteSize start) ['$'] := stands.right.of_isPrefix ⟨tail, rfl⟩
  have upper : span.start + Text.byteSize start < span.stop := by
    have room : (source.at span).byteSize = span.stop - span.start :=
      Text.byteSize_slice within.atStart within.atStop within.forward
    have one : '$'.utf8Size = 1 := rfl
    rw [here, Text.byteSize_append, Text.byteSize_cons, one] at room
    omega
  have place := places _ (Nat.le_add_right ..) upper
  have offset : Chunk.lengths before + front.byteSize = span.start + Text.byteSize start +
      earlyIn (span.start + Text.byteSize start) ahead - lostIn ahead := by omega
  rw [offset] at compiled
  refine ⟨front, expression, e, _, ahead, misread, dollar, ⟨span, behind, split, Nat.le_add_right .., upper,
    document, symbols, by rw [demo]; exact written, by rw [stands.left.slice]; exact told⟩, compiled, ?_⟩
  rw [ParseError.offset_locate_iff dollar rfl]
  omega

end

theorem ProgramDraft.exists_through_condition : ∃ d, ({} : ProgramDraft).through [.code 7 "if:x"] = .ok d := by
  have taken : (({} : ProgramDraft).through [.code 7 "if:x"]).isOk = true := by decide +kernel
  cases read : ({} : ProgramDraft).through [.code 7 "if:x"] with
  | error e =>
    rw [read] at taken
    cases taken
  | ok d => exact ⟨d, rfl⟩

theorem Expression.read_plus : Expression.read "+" = .error ⟨"cannot parse expression \"+\"", none⟩ := by
  decide +kernel

/-- An expression behind a statement attribute of its start tag, and behind a character of two bytes. -/
theorem interpolation_fault_place_behind_condition :
    let parser : Parser TemplateClass := ⟨.default, Program.dialect, Program.compiler⟩
    let resource : Resource := { name := "t", source := "<p if='x' a='é$\x7b+\x7d'>y</p>" }
    let source := resource.source
    let text : Text := "<p a='é$\x7b+\x7d'>y</p>"
    source.byteSize < Marker.lengthBound ∧ source.Unmarked ∧
      ∃ events template d fault, parser.parse false resource = (events, .ok template) ∧
        template.chunks = [.code 7 "if:x"] ++ .text text :: [.code 0 "end:"] ∧
        ({} : ProgramDraft).through [.code 7 "if:x"] = .ok d ∧ d.take (.text text) = .error fault ∧
        ∃ front expression e p ahead, Misread text front expression e ∧ Stands source p ['$'] ∧
          KeptBehind parser.dialect source (layout parser.names source 0 source.byteSize none source.nodes) ahead
            (Chunk.document [.code 7 "if:x"] ++ front) p ∧
          let reported := ParseError.locate (.invalidTemplate "t" e.message) resource
            (p + earlyIn p ahead - lostIn ahead)
          parser.compile false resource = (events, .error reported) ∧
            (reported.offset = p ↔ earlyIn p ahead = lostIn ahead) := by
  intro parser resource source text
  have size : source.byteSize < Marker.lengthBound := by decide +kernel
  have unmarked : source.Unmarked := by decide +kernel
  have succeeds : (parser.parse false resource).2.isOk = true := by decide +kernel
  have pieces : (pieces? Program.dialect source {} (layout parser.names source 0 source.byteSize none
      source.nodes)).map (Chunk.merged ∘ Prod.fst) =
      some ([.code 7 "if:x"] ++ .text text :: [.code 0 "end:"]) := by decide +kernel
  have found : interpolation? text = some (("<p a='é" : Text), ("+" : Text), ("'>y</p>" : Text)) := by decide +kernel
  obtain ⟨events, template, parsed⟩ := Parser.exists_of_isOk succeeds
  obtain ⟨d, read⟩ := ProgramDraft.exists_through_condition
  have chunks := Parser.chunks_eq_of_unmarked rfl size unmarked parsed pieces
  have refused : d.take (.text text) = .error
      ⟨"cannot parse expression \"+\"", some (d.offset + Text.byteSize "<p a='é")⟩ := by
    show (interpolate d.offset text >>= _) = _
    rw [interpolate_of_misread (.first found Expression.read_plus)]
    rfl
  obtain ⟨front, expression, e, p, ahead, misread, dollar, kept, compiled, place⟩ :=
    interpolation_fault_place rfl rfl size unmarked parsed chunks read refused
  exact ⟨size, unmarked, events, template, d, _, parsed, chunks, read, refused, front, expression, e, p, ahead,
    misread, dollar, kept, compiled, place⟩

/-- An expression in front of a statement attribute of its start tag. The error is located seven bytes behind the
dollar sign, as many as there are in the attribute and the blank before it. -/
theorem fault_behind_interpolation :
    let parser : Parser TemplateClass := ⟨.default, Program.dialect, Program.compiler⟩
    let resource : Resource := { name := "t.html", source := "<p a=\"$\x7b+\x7d\" if=\"x\">y</p>" }
    resource.source.Unmarked ∧ Stands resource.source 6 "$\x7b+\x7d" ∧
      ∃ events template, parser.parse false resource = (events, .ok template) ∧
        ∃ e, (parser.compile false resource).2 = .error e ∧
          e.fault = .invalidTemplate "t.html" "cannot parse expression \"+\"" ∧ e.offset = 6 + 7 := by
  intro parser resource
  have size : resource.source.byteSize < Marker.lengthBound := by decide +kernel
  have unmarked : resource.source.Unmarked := by decide +kernel
  have succeeds : (parser.parse false resource).2.isOk = true := by decide +kernel
  have pieces : (pieces? Program.dialect resource.source {} (layout parser.names resource.source 0
      resource.source.byteSize none resource.source.nodes)).map (Chunk.merged ∘ Prod.fst) =
      some ([.code 7 "if:x"] ++ .text "<p a=\"$\x7b+\x7d\">y</p>" :: [.code 0 "end:"]) := by decide +kernel
  have found : interpolation? "<p a=\"$\x7b+\x7d\">y</p>" =
      some (("<p a=\"" : Text), ("+" : Text), ("\">y</p>" : Text)) := by decide +kernel
  obtain ⟨events, template, parsed⟩ := Parser.exists_of_isOk succeeds
  have dollar : Stands resource.source 6 "$\x7b+\x7d" :=
    ⟨"<p a=\"", "\" if=\"x\">y</p>", by decide +kernel, by decide +kernel⟩
  refine ⟨unmarked, dollar, events, template, parsed, ?_⟩
  obtain ⟨d, read⟩ := ProgramDraft.exists_through_condition
  have chunks := Parser.chunks_eq_of_unmarked rfl size unmarked parsed pieces
  rw [Parser.compile_of_misread rfl parsed chunks read (.first found Expression.read_plus)]
  exact ⟨_, rfl, rfl, by decide +kernel⟩

end MarkupTemplates
