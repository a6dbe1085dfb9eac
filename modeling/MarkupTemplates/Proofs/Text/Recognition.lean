import MarkupTemplates.Proofs.Text.Chunks

namespace MarkupTemplates

namespace Chunk

theorem Tile.push {list : List Chunk} {t : Text} (tile : Tile list t) (c : Char) : Tile (push c list) (c :: t) := by
  cases tile with
  | nil => exact .text .nil
  | text rest => exact .text rest
  | code spells rest => exact .text (.code spells rest)

/-- A document is divided where its chunks are. -/
theorem Tile.split {first rest : List Chunk} {t : Text} (tile : Tile (first ++ rest) t) :
    ∃ before after, t = before ++ after ∧ Tile first before ∧ Tile rest after := by
  induction first generalizing t with
  | nil => exact ⟨[], t, rfl, .nil, tile⟩
  | cons chunk first ih =>
    cases tile with
    | @text s _ _ tail =>
      obtain ⟨before, after, rfl, front, back⟩ := ih tail
      exact ⟨s ++ before, after, (List.append_assoc ..).symm, .text front, back⟩
    | @code _ _ m _ _ spells tail =>
      obtain ⟨before, after, rfl, front, back⟩ := ih tail
      exact ⟨m ++ before, after, (List.append_assoc ..).symm, .code spells front, back⟩

/-- Code parts chunks into two lists, both with code between any two texts. -/
theorem Settled.around {first rest : List Chunk} {length : Nat} {inner : Text}
    (settled : Settled (first ++ .code length inner :: rest)) : Settled first ∧ Settled rest := by
  induction first with
  | nil =>
    cases settled with
    | code behind => exact ⟨.nil, behind⟩
  | cons chunk first ih =>
    cases chunk with
    | code length' inner' =>
      cases settled with
      | code behind =>
        obtain ⟨front, back⟩ := ih behind
        exact ⟨.code front, back⟩
    | text t =>
      cases first with
      | nil =>
        cases settled with
        | text some_text behind =>
          cases behind with
          | code behind => exact ⟨.last some_text, behind⟩
      | cons next first =>
        cases settled with
        | text some_text behind =>
          obtain ⟨front, back⟩ := ih behind
          exact ⟨.text some_text front, back⟩

theorem tile_chunks (t : Text) : Tile t.chunks t := by
  induction t using Text.chunks.induct with
  | case1 =>
    rw [Text.chunks]
    exact .nil
  | case2 t length inner rest read _ ih =>
    obtain ⟨own, rfl, spells⟩ := Marker.spells_of_read? read
    rw [← List.cons_append, Text.chunks_spelled spells]
    exact .code spells ih
  | case3 t read ih =>
    simp only [Text.chunks_opening, read]
    exact ih.push Marker.opening
  | case4 c t other ih =>
    rw [Text.chunks_other other]
    exact ih.push c

theorem settled_chunks (t : Text) : Settled t.chunks := by
  induction t using Text.chunks.induct with
  | case1 =>
    rw [Text.chunks]
    exact .nil
  | case2 t length inner rest read _ ih =>
    simp only [Text.chunks_opening, read]
    exact .code ih
  | case3 t read ih =>
    simp only [Text.chunks_opening, read]
    exact ih.push Marker.opening
  | case4 c t other ih =>
    rw [Text.chunks_other other]
    exact ih.push c

/-- No code is left in the texts of a document: there is as much code when they are read again. -/
theorem no_code_in_texts {t s : Text} (member : .text s ∈ t.chunks) (length : Nat) (inner : Text) :
    .code length inner ∉ s.chunks := by
  have again := (tile_chunks t).chunks (settled_chunks t)
  have none := (countP_reread t.chunks).2 (congrArg (List.countP isCode) again.symm) s member
  exact fun found => absurd (List.countP_eq_zero.mp none _ found) (by simp [isCode])

/-- Chunks are those of every document they make up, if code is between any two texts and no text reads as
code. -/
theorem Tile.chunks_eq {list : List Chunk} {t : Text} (tile : Tile list t) (settled : Settled list)
    (none : ∀ s, .text s ∈ list → ∀ length inner, .code length inner ∉ Text.chunks s) : t.chunks = list :=
  (tile.chunks settled).trans (settled.flatMap_reread none)

/-- Wherever code stands among the chunks, the document has a marker between the text of the chunks before it
and that of the chunks after it. -/
theorem marker_of_chunk {t inner : Text} {first rest : List Chunk} {length : Nat}
    (found : t.chunks = first ++ .code length inner :: rest) :
    ∃ before m after, t = before ++ (m ++ after) ∧ Marker.Spells length inner m ∧
      before.chunks = first ∧ after.chunks = rest := by
  have tile := tile_chunks t
  have settled := settled_chunks t
  have plain : ∀ s, .text s ∈ first ++ .code length inner :: rest → ∀ length inner, .code length inner ∉ s.chunks :=
    fun s member => no_code_in_texts (found ▸ member)
  rw [found] at tile settled
  obtain ⟨before, behind, rfl, front, back⟩ := tile.split
  obtain ⟨settled_front, settled_back⟩ := settled.around
  cases back with
  | @code _ _ m after _ spells back =>
    refine ⟨before, m, after, rfl, spells, front.chunks_eq settled_front fun s member => ?_,
      back.chunks_eq settled_back fun s member => ?_⟩
    · exact plain s (List.mem_append_left _ member)
    · exact plain s (List.mem_append_right _ (List.mem_cons_of_mem _ member))

end Chunk

/-- The code of a document is what its markers say, all of them in order and in whatever spelling, and the text
between them is as long as can be. So chunks that can be told from each other are read as they are written,
and a document that is written anew from its chunks has the same chunks. -/
theorem chunks_are_markers :
    (∀ t : Text, Chunk.Tile t.chunks t ∧ Chunk.Settled t.chunks ∧
      (∀ first length inner rest, t.chunks = first ++ .code length inner :: rest ↔
        ∃ before m after, t = before ++ (m ++ after) ∧ Marker.Spells length inner m ∧
          before.chunks = first ∧ after.chunks = rest) ∧
      ∀ s, .text s ∈ t.chunks → ∀ length inner m, Marker.Spells length inner m → ¬ m <:+: s) ∧
    (∀ list, Chunk.Settled list → (∀ t, .text t ∈ list → Marker.opening ∉ t) →
      (∀ length inner, .code length inner ∈ list →
        length < Marker.lengthBound ∧ Marker.opening ∉ inner ∧ Marker.closing ∉ inner) →
      (Chunk.document list).chunks = list) ∧
    ∀ t : Text, (Chunk.document t.chunks).chunks = t.chunks := by
  refine ⟨fun t => ⟨Chunk.tile_chunks t, Chunk.settled_chunks t, fun first length inner rest => ?_,
    fun s member length inner m spells inside => ?_⟩, fun list settled plain clean => ?_, fun t => ?_⟩
  · constructor
    · exact Chunk.marker_of_chunk
    · rintro ⟨before, m, after, rfl, spells, rfl, rfl⟩
      exact Text.chunks_around spells before after
  · obtain ⟨before, after, rfl⟩ := inside
    have read := Text.chunks_around spells before after
    rw [← List.append_assoc] at read
    refine Chunk.no_code_in_texts member length inner ?_
    rw [read]
    exact List.mem_append_right _ List.mem_cons_self
  · refine (Chunk.tile_document fun chunk member => ?_).chunks_eq settled fun s member =>
      Text.no_code_of_plain (plain s member)
    cases chunk with
    | text t => trivial
    | code length inner =>
      obtain ⟨bound, unopened, unclosed⟩ := clean length inner member
      exact ⟨bound, fun c inside => Marker.isCodeChar_iff.mpr
        ⟨ne_of_mem_of_not_mem inside unopened, ne_of_mem_of_not_mem inside unclosed⟩⟩
  · refine (Chunk.tile_document fun chunk member => ?_).chunks_eq (Chunk.settled_chunks t) fun s =>
      Chunk.no_code_in_texts
    cases chunk with
    | text t => trivial
    | code length inner => exact Text.clean_of_mem_chunks member

/-- A marker with a zero in front, behind a text that nearly holds two others, and chunks as they can be told
from each other. -/
theorem chunks_are_markers_behind_malformed :
    let malformed : Text := "ä\x02x:y\x03ö\x021:open"
    let spelled : Text := "\x0202:z\x03"
    let list : List Chunk := [.text "ä", .code 12 "if:x", .text "\x03:b", .code 0 "", .code 3 ":"]
    Marker.Spells 2 "z" spelled ∧ (malformed ++ (spelled ++ [])).chunks = malformed.chunks ++ [.code 2 "z"] ∧
      Chunk.Settled list ∧ (Chunk.document list).chunks = list := by
  intro malformed spelled list
  obtain ⟨recognised, read, _⟩ := chunks_are_markers
  have digits : List.all ("02" : Text) Char.isDigit = true := by decide
  have inner : List.all ("z" : Text) Marker.isCodeChar = true := by decide
  have spells : Marker.Spells 2 "z" spelled :=
    @Marker.Spells.intro 2 "z" "02" (by decide) (List.all_eq_true.mp digits) (by decide) (by decide) fun c member =>
      Marker.isCodeChar_iff.mp (List.all_eq_true.mp inner c member)
  have settled : Chunk.Settled list := .text (by decide) (.code (.text (by decide) (.code (.code .nil))))
  have none : Text.chunks [] = [] := by rw [Text.chunks]
  refine ⟨spells, ?_, settled, read list settled ?_ ?_⟩
  · exact ((recognised _).2.2.1 malformed.chunks 2 "z" []).mpr ⟨malformed, spelled, [], rfl, spells, rfl, none⟩
  · intro t member
    simp only [list, List.mem_cons, Chunk.text.injEq, reduceCtorEq, List.not_mem_nil, or_false, false_or] at member
    rcases member with rfl | rfl <;> decide
  · intro length inner member
    simp only [list, List.mem_cons, Chunk.code.injEq, reduceCtorEq, List.not_mem_nil, or_false, false_or] at member
    rcases member with ⟨rfl, rfl⟩ | ⟨rfl, rfl⟩ | ⟨rfl, rfl⟩ <;> decide

end MarkupTemplates
