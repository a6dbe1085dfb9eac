import MarkupTemplates.Proofs.Markup.Comments
import MarkupTemplates.Proofs.Markup.Excerpt
import MarkupTemplates.Proofs.Markup.Rows
import MarkupTemplates.Proofs.ParsedTemplate.Attributes

namespace MarkupTemplates

/-- The value of an attribute is written from byte `start` on to the end of the attribute, between two
quotation marks or without any, with character references in place of some characters. -/
inductive ValueStands (source : Text) (stop start : Nat) (value : Text) : Prop
  | quoted {before : Nat} {mark : Char} {content : Text} :
      mark = '"' ∨ mark = '\'' → mark ∉ content → Stands source before (mark :: content ++ [mark]) →
      start = before + 1 → stop = start + content.byteSize + 1 → Text.resolved content = value →
      ValueStands source stop start value
  | bare {content : Text} :
      content ≠ [] → (∀ c ∈ content, isBareValueChar c = true) → Stands source start content →
      stop = start + content.byteSize → Text.resolved content = value → ValueStands source stop start value

/-- An attribute stands where it says: behind a blank of one byte, the name first and then the value, if
there is one. -/
structure Attribute.Sound (source : Text) (a : Attribute) : Prop where
  blank : ∃ before c, a.span.start = before + 1 ∧ isGap c = true ∧ Stands source before [c]
  some_name : a.name ≠ []
  name : Stands source a.span.start a.name
  alone : a.value = none → a.valueStart = none ∧ a.span.stop = a.span.start + a.name.byteSize
  assigned : ∀ value, a.value = some value → ∃ start, a.valueStart = some start ∧
    a.span.start + a.name.byteSize < start ∧ ValueStands source a.span.stop start value

/-- A start tag stands where it says, from one bracket to the other. Its attributes come one after the
other, and the blank before each of them belongs to none. -/
structure Tag.Sound (source : Text) (tag : Tag) : Prop where
  opening : Stands source tag.span.start ('<' :: tag.name)
  closing : ∃ before, tag.span.stop = before + 1 ∧ Stands source before ['>']
  proper : tag.span.start + 1 + tag.name.byteSize < tag.span.stop
  ordered : tag.attributes.Pairwise fun a b => a.span.stop < b.span.start
  inside : ∀ a ∈ tag.attributes, tag.span.start + 1 + tag.name.byteSize < a.span.start ∧
    a.span.stop < tag.span.stop
  attributes : ∀ a ∈ tag.attributes, a.Sound source

/-- A comment runs to the first mark that ends one, or to the end of the source if there is none. -/
inductive CommentStands (source : Text) (span : Span) : Prop
  | closed {inner : Text} : Stands source span.start (("<!--" : Text) ++ (inner ++ commentEnd)) →
      span.stop = span.start + Text.byteSize (("<!--" : Text) ++ (inner ++ commentEnd)) →
      ¬ commentEnd <:+: inner → CommentStands source span
  | unclosed {inner : Text} : Stands source span.start (("<!--" : Text) ++ inner) →
      span.stop = span.start + Text.byteSize (("<!--" : Text) ++ inner) → span.stop = source.byteSize →
      ¬ commentEnd <:+: inner → CommentStands source span

/-- Nodes in a row keep to a stretch of the source, and none begins before the one in front of it ends. -/
structure RowStands (room : Span) (row : List Node) : Prop where
  within : ∀ node ∈ row, room.start ≤ node.span.start ∧ node.span.start ≤ node.span.stop ∧
    node.span.stop ≤ room.stop
  ordered : row.Pairwise fun a b => a.span.stop ≤ b.span.start

/-- What a node says about places in the source holds. The children of an element stand between its start
tag and its end. -/
def Node.Sound (source : Text) : Node → Prop
  | .comment span => CommentStands source span
  | .element tag stop children =>
    tag.Sound source ∧ tag.span.stop ≤ stop ∧ RowStands ⟨tag.span.stop, stop⟩ children

/-- All places that an attribute names. -/
def Attribute.offsets (a : Attribute) : List Nat := a.span.start :: a.span.stop :: a.valueStart.toList

/-- All places that a node names, apart from those of its children. -/
def Node.offsets : Node → List Nat
  | .comment span => [span.start, span.stop]
  | .element tag stop _ =>
    tag.span.start :: tag.span.stop :: stop :: tag.attributes.flatMap Attribute.offsets

theorem Placed.rowStands {source : Text} {lo hi : Nat} {nodes : List Node}
    (placed : Placed source lo hi nodes) : RowStands ⟨lo, hi⟩ nodes := by
  induction placed with
  | nil => exact ⟨fun node member => absurd member List.not_mem_nil, .nil⟩
  | @comment lo hi span rest lower _ forward _ placed ih =>
    have upper := placed.le
    refine ⟨fun node member => ?_, .cons (fun node member => (ih.within node member).1) ih.ordered⟩
    rcases List.mem_cons.mp member with rfl | member
    · exact ⟨lower, forward, upper⟩
    · obtain ⟨above, proper, below⟩ := ih.within node member
      exact ⟨by simp only at above ⊢; omega, proper, below⟩
  | @element lo hi stop tag children rest lower _ attributes _ content _ placed _ ih =>
    have upper := placed.le
    have forward := attributes.le
    have inside := content.le
    refine ⟨fun node member => ?_, .cons (fun node member => (ih.within node member).1) ih.ordered⟩
    rcases List.mem_cons.mp member with rfl | member
    · exact ⟨lower, Nat.le_trans forward inside, upper⟩
    · obtain ⟨above, proper, below⟩ := ih.within node member
      exact ⟨by simp only at above ⊢; omega, proper, below⟩

theorem AttributesPlaced.ordered {source : Text} {lo hi : Nat} {attributes : List Attribute}
    (placed : AttributesPlaced source hi lo attributes) :
    attributes.Pairwise fun a b => a.span.stop < b.span.start := by
  induction placed with
  | nil => exact .nil
  | cons _ _ _ _ rest ih => exact .cons (fun b member => (rest.of_mem member).1) ih

/-- The value of an attribute follows the equals sign and the blanks behind it. -/
theorem Assignment.valueStands {source : Text} {start : Nat} {written : Assignment} (legible : written.Legible)
    (stands : Stands source start written.text) :
    ValueStands source (start + written.text.byteSize)
      (start + Text.byteSize written.before + 1 + Text.byteSize written.after + written.value.indent)
      (Text.resolved written.value.content) := by
  obtain ⟨before, after, value⟩ := written
  have pieces : Assignment.text ⟨before, after, value⟩ = (before ++ '=' :: after) ++ value.text := by
    simp only [Assignment.text]
  have size : Text.byteSize (before ++ '=' :: after) = Text.byteSize before + 1 + Text.byteSize after := by
    rw [Text.byteSize_append, Text.byteSize_cons, Nat.add_assoc]
    rfl
  rw [pieces] at stands
  have here := stands.right
  rw [pieces, Text.byteSize_append, size]
  rw [size] at here
  cases value with
  | quoted mark content =>
    obtain ⟨quote, without⟩ := legible.value
    have one : mark.utf8Size = 1 := by
      rcases quote with rfl | rfl <;> rfl
    have width : Text.byteSize (WrittenValue.quoted mark content).text = 1 + Text.byteSize content + 1 := by
      rw [WrittenValue.text, List.cons_append, Text.byteSize_cons, Text.byteSize_append, Text.byteSize_cons,
        Text.byteSize_nil, one, Nat.add_zero, Nat.add_assoc]
    refine .quoted quote without here ?_ ?_ rfl <;> simp only [WrittenValue.indent, width] <;> omega
  | bare content =>
    obtain ⟨some_content, inside⟩ := legible.value
    refine .bare some_content inside ?_ ?_ rfl
    · have same : start + (Text.byteSize before + 1 + Text.byteSize after) =
          start + Text.byteSize before + 1 + Text.byteSize after + (WrittenValue.bare content).indent := by
        simp only [WrittenValue.indent]
        omega
      rw [← same]
      exact here
    · simp only [WrittenValue.indent, WrittenValue.text]
      omega

theorem WrittenAttribute.sound {source : Text} {start : Nat} {own : WrittenAttribute} (legible : own.Legible)
    (stands : Stands source start own.text) : (own.located start).Sound source := by
  obtain ⟨blanks, blank, gap, one, _⟩ := legible.last_blank
  have gap_size : Text.byteSize own.gap = blanks.byteSize + 1 := by
    rw [gap, Text.byteSize_append, Text.byteSize_cons, one]
    rfl
  have pieces : own.text = own.gap ++ (own.name ++ (own.assignment.map Assignment.text).getD []) := by
    rw [WrittenAttribute.text, List.append_assoc]
    cases own.assignment <;> rfl
  have named := stands
  rw [pieces] at named
  refine ⟨?_, legible.some_name, named.right.left, ?_, ?_⟩
  · have inFront := named.left
    rw [gap] at inFront
    exact ⟨start + blanks.byteSize, blank, by simp only [located, gap_size]; omega,
      legible.gap blank (by simp [gap]), inFront.right⟩
  · intro alone
    have none : own.assignment = none := Option.map_eq_none_iff.mp alone
    refine ⟨by simp only [located, none, Option.map_none], ?_⟩
    simp only [located, pieces, none, Option.map_none, Option.getD_none, List.append_nil, Text.byteSize_append]
    omega
  · intro value eq
    obtain ⟨written, assigned, rfl⟩ := Option.map_eq_some_iff.mp eq
    rw [assigned] at named pieces
    have valued := Assignment.valueStands (legible.assignment written assigned) named.right.right
    have stop : (own.located start).span.stop =
        start + own.gap.byteSize + own.name.byteSize + written.text.byteSize := by
      simp only [located, pieces, Option.map_some, Option.getD_some, Text.byteSize_append]
      omega
    refine ⟨_, congrArg (Option.map _) assigned, ?_, ?_⟩
    · simp only [located]
      omega
    · rw [stop]
      exact valued

/-- A start tag that reads as it is meant stands as it is read. -/
theorem WrittenTag.sound {source : Text} {start : Nat} {tag : WrittenTag} (legible : tag.Legible)
    (stands : Stands source start tag.text) : (tag.located start).Sound source := by
  have size := tag.byteSize_text
  obtain ⟨kept, ending⟩ : ∃ kept, tag.ending = kept ++ ['>'] := ⟨_, rfl⟩
  have ending_size : tag.ending.byteSize = kept.byteSize + 1 := by
    rw [ending, Text.byteSize_append]
    rfl
  have pieces : tag.text = '<' :: tag.name ++ (tag.attributes.flatMap WrittenAttribute.text ++ (kept ++ ['>'])) := by
    rw [WrittenTag.text_eq, ending, List.append_assoc]
  have name_size : Text.byteSize ('<' :: tag.name) = 1 + Text.byteSize tag.name := rfl
  have row := stands
  rw [pieces] at row
  refine ⟨row.left, ?_, ?_, (tag.placed legible stands).ordered, fun a member => ?_, fun a member => ?_⟩
  · refine ⟨_, ?_, row.right.right.right⟩
    simp only [located, size, name_size, ending_size, sizeInRow]
    omega
  · simp only [located, size, ending_size]
    omega
  · obtain ⟨before, own, after, split, rfl⟩ := mem_locatedInRow member
    have gap := Text.byteSize_pos (legible.attributes own (by rw [split]; simp)).some_gap
    rw [split, sizeInRow_append, sizeInRow_cons] at size
    simp only [located, WrittenAttribute.located, size, ending_size]
    omega
  · obtain ⟨before, own, after, split, rfl⟩ := mem_locatedInRow member
    have here := row.right.left
    rw [split, List.flatMap_append, List.flatMap_cons, name_size] at here
    have own_stands := here.right.left
    rw [← Nat.add_assoc] at own_stands
    exact WrittenAttribute.sound (legible.attributes own (by rw [split]; simp)) own_stands

namespace Scan

/-- A comment is closed by the first mark that ends comments. Without such a mark it is the last piece. -/
theorem token?_comment_text {t text rest : Text} (h : token? t = some (.comment text, rest)) :
    ∃ inner, ¬ commentEnd <:+: inner ∧ (text = ("<!--" : Text) ++ (inner ++ commentEnd) ∨
      text = ("<!--" : Text) ++ inner ∧ rest = []) := by
  have other {opening closing : Text} (h : construct? opening closing .plain t = some (.comment text, rest)) :
      False := by
    obtain ⟨inner, _, eq⟩ := Option.map_eq_some_iff.mp h
    exact Token.noConfusion (Prod.mk.inj eq).1
  simp only [token?, Option.orElse_eq_orElse, Option.orElse_eq_or, Option.or_eq_some_iff] at h
  obtain h | ⟨_, h | ⟨_, h | ⟨_, h | ⟨_, h | ⟨_, h | ⟨_, h⟩⟩⟩⟩⟩⟩ := h
  · obtain ⟨all, _, eq⟩ := Option.map_eq_some_iff.mp h
    obtain ⟨own, rfl⟩ := Prod.mk.inj eq
    obtain rfl := Token.comment.inj own
    unfold through
    split
    · next before after found =>
      exact ⟨before, Text.not_infix_of_cut? (by decide) found, .inl rfl⟩
    · next none => exact ⟨all, Text.not_infix_of_cut?_eq_none (by decide) none, .inr ⟨rfl, rfl⟩⟩
  · exact (other h).elim
  · exact (other h).elim
  · exact (other h).elim
  · obtain ⟨name, gap, eq⟩ := endTag?_form h
    exact Token.noConfusion eq
  · obtain ⟨tag, eq⟩ | ⟨tag, content, eq⟩ := element?_form h <;> exact Token.noConfusion eq
  · obtain ⟨c, s, eq⟩ := plain?_form h
    exact Token.noConfusion eq

end Scan

theorem comment_sound {source : Text} {row : List Node} {span : Span} (siblings : Siblings source.nodes row)
    (member : .comment span ∈ row) : CommentStands source span := by
  obtain ⟨first, second, rfl⟩ := List.append_of_mem member
  obtain ⟨_, document⟩ := formed_nodes source
  obtain ⟨outer, before, inner, after, _, pieces, formed⟩ := document.siblings siblings
  obtain ⟨front, text, rest, rfl, place, _, _⟩ := formed.split_comment
  have here : Scan.tokens source = (before ++ front) ++ .comment text :: (rest ++ after) := by
    rw [pieces]
    simp only [List.append_assoc, List.cons_append]
  have read := Scan.token?_of_tokens (Scan.tokens_after here)
  have spelled : source = spelling (before ++ front) ++ (text ++ spelling (rest ++ after)) := by
    rw [← show (Token.comment text).text = text from rfl, ← spelling_cons, ← spelling_append, ← here, spelling,
      Scan.tokens_spells]
  obtain ⟨start, stop⟩ : span.start = (spelling (before ++ front)).byteSize ∧
      span.stop = span.start + Text.byteSize text := by
    rw [place]
    simp only [byteSize_spelling_append, byteSize_spelling_singleton, Nat.zero_add, Nat.add_assoc, Token.text,
      and_self]
  have stands : Stands source span.start text := by
    rw [start]
    exact ⟨_, _, by rw [List.append_assoc]; exact spelled, rfl⟩
  obtain ⟨content, noEnd, rfl | ⟨rfl, last⟩⟩ := Scan.token?_comment_text read
  · exact .closed stands stop noEnd
  · refine .unclosed stands stop ?_ noEnd
    have whole := congrArg Text.byteSize spelled
    rw [last, List.append_nil, Text.byteSize_append] at whole
    rw [stop, start, whole]

theorem element_sound {source : Text} {row children : List Node} {tag : Tag} {stop : Nat}
    (siblings : Siblings source.nodes row) (member : .element tag stop children ∈ row) : tag.Sound source := by
  obtain ⟨start, first, tail, written, _, stands, _, tagged, legible, rfl, _⟩ := written_element siblings member
  rw [spelling_cons, Token.text_of_tag tagged, List.append_assoc] at stands
  exact WrittenTag.sound legible stands.left

/-- The place where a value begins lies between two characters. -/
theorem ValueStands.isBoundary {source value : Text} {stop start : Nat}
    (stands : ValueStands source stop start value) : source.IsBoundary start := by
  cases stands with
  | @quoted before mark content quote _ stands eq =>
    have one : Text.byteSize [mark] = 1 := by
      rcases quote with rfl | rfl <;> rfl
    have behind := (show Stands source before ([mark] ++ (content ++ [mark])) from stands).right.atStart
    rwa [one, ← eq] at behind
  | bare _ _ stands => exact stands.atStart

theorem Attribute.Sound.isBoundary_valueStart {source : Text} {a : Attribute} (sound : a.Sound source) {n : Nat}
    (member : n ∈ a.valueStart.toList) : source.IsBoundary n := by
  have begins := Option.mem_toList.mp member
  cases eq : a.value with
  | none => exact absurd (begins.symm.trans (sound.alone eq).1) nofun
  | some value =>
    obtain ⟨start, place, _, stands⟩ := sound.assigned value eq
    obtain rfl : start = n := Option.some.inj (place.symm.trans begins)
    exact stands.isBoundary

/-- Whatever a document looks like, its nodes stand where they say, each row in order within its element, and
every place that they name lies between two characters of the document. -/
theorem spans_sound (source : Text) : RowStands ⟨0, source.byteSize⟩ source.nodes ∧
    ∀ row, Siblings source.nodes row → ∀ node ∈ row,
      node.Sound source ∧ ∀ n ∈ node.offsets, source.IsBoundary n := by
  refine ⟨(placed_nodes source).rowStands, fun row siblings node member => ?_⟩
  obtain ⟨_, _, placed⟩ := (placed_nodes source).siblings siblings
  obtain ⟨_, _, _, _, own⟩ := placed.of_mem member
  cases own with
  | comment _ atStart _ atStop _ =>
    refine ⟨comment_sound siblings member, ?_⟩
    rintro n (_ | ⟨_, _ | ⟨_, none⟩⟩)
    · exact atStart
    · exact atStop
    · exact absurd none List.not_mem_nil
  | @element _ _ stop tag children _ _ atStart attributes atTag content atStop _ =>
    have sound := element_sound siblings member
    refine ⟨⟨sound, content.le, content.rowStands⟩, fun n among => ?_⟩
    simp only [Node.offsets, List.mem_cons, List.mem_flatMap] at among
    rcases among with rfl | rfl | rfl | ⟨a, inside, among⟩
    · exact atStart
    · exact atTag
    · exact atStop
    · have known := sound.attributes a inside
      simp only [Attribute.offsets, List.mem_cons] at among
      rcases among with rfl | rfl | among
      · exact known.name.atStart
      · exact (attributes.of_mem inside).2.2.1
      · exact known.isBoundary_valueStart among

/-- The item is closed by the end tag of its list, and has a value with a character of two bytes. -/
theorem spans_sound_in_unclosed_item :
    let source : Text := "<ul><li id=\"ä\" else>x</ul><!-- y"
    let item : Node := .element ⟨"li", [⟨"id", some "ä", ⟨8, 15⟩, some 12⟩, ⟨"else", none, ⟨16, 20⟩, none⟩],
      ⟨4, 21⟩⟩ 22 []
    Siblings source.nodes [item] ∧ item.Sound source ∧ ∀ n ∈ item.offsets, source.IsBoundary n := by
  intro source item
  have list : source.nodes = [.element ⟨"ul", [], ⟨0, 4⟩⟩ 27 [item], .comment ⟨27, 33⟩] := by decide +kernel
  have siblings : Siblings source.nodes [item] := .children .roots (by rw [list]; exact List.mem_cons_self)
  exact ⟨siblings, (spans_sound source).2 [item] siblings item List.mem_cons_self⟩

end MarkupTemplates
