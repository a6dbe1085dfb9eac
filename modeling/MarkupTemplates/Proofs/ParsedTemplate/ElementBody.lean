import MarkupTemplates.ParsedTemplate.MacroBody
import MarkupTemplates.Proofs.Markup.Placement
import MarkupTemplates.Proofs.Markup.Retagging

namespace MarkupTemplates

/-- An attribute whose value is not in quotation marks. -/
def Attribute.EndsBare (source : Text) (a : Attribute) : Prop :=
  a.value.isSome = true ∧ ∀ c, (source.at a.span).getLast? = some c → c ≠ '"' ∧ c ≠ '\''

/-- The attribute is all that parts the slash of a tag from a value without quotation marks: one blank
comes before it, and none after it. -/
def Parts (source : Text) (tag : Tag) (a : Attribute) : Prop :=
  ∃ earlier previous, tag.attributes = earlier ++ [previous, a] ∧ previous.EndsBare source ∧
    previous.span.stop + 1 = a.span.start ∧ source.at ⟨a.span.stop, tag.span.stop⟩ = ("/>" : Text)

theorem Stands.slice {source t : Text} {start : Nat} (stands : Stands source start t) :
    source.slice start (start + t.byteSize) = t := by
  obtain ⟨before, after, rfl, rfl⟩ := stands
  exact Text.slice_append before t after

/-- What is in front of a stretch, and what is behind it. -/
theorem Stands.around {source first cut last : Text} {start : Nat}
    (stands : Stands source start (first ++ (cut ++ last))) :
    source.slice start (start + first.byteSize) = first ∧
      source.slice (start + first.byteSize + cut.byteSize)
        (start + Text.byteSize (first ++ (cut ++ last))) = last := by
  have behind := stands.right.right.slice
  have stop : start + Text.byteSize (first ++ (cut ++ last)) =
      start + first.byteSize + cut.byteSize + last.byteSize := by
    rw [Text.byteSize_append, Text.byteSize_append]
    omega
  rw [← stop] at behind
  exact ⟨stands.left.slice, behind⟩

theorem at_located {source : Text} (core : Text) {start : Nat} {own : WrittenAttribute}
    (spelled : own.text = own.gap ++ core) (stands : Stands source start own.text) :
    source.at (own.located start).span = core := by
  have stop : (own.located start).span.stop = start + Text.byteSize own.gap + core.byteSize := by
    rw [Nat.add_assoc, ← Text.byteSize_append, ← spelled]
    rfl
  rw [spelled] at stands
  have slice := stands.right.slice
  rw [← stop] at slice
  exact slice

theorem endsBare_located {source : Text} {start : Nat} {own : WrittenAttribute} (legible : own.Legible)
    (stands : Stands source start own.text) :
    (own.located start).EndsBare source ↔ own.isUnquoted = true := by
  obtain ⟨gap, name, assigned⟩ := own
  cases assigned with
  | none => simp [Attribute.EndsBare, WrittenAttribute.located, WrittenAttribute.isUnquoted]
  | some written =>
    obtain ⟨before, after, value⟩ := written
    have value_legible := (legible.assignment _ rfl).value
    have here := at_located (name ++ before ++ '=' :: after ++ value.text) (by
      simp only [WrittenAttribute.text, Assignment.text, List.append_assoc]) stands
    rw [Attribute.EndsBare, here]
    constructor
    · rintro ⟨_, ends⟩
      cases value with
      | bare content => rfl
      | quoted mark content =>
        obtain ⟨own_mark, _⟩ := value_legible
        have noMark := ends mark (by
          rw [WrittenValue.text, ← List.append_assoc, List.getLast?_append, List.getLast?_singleton,
            Option.some_or])
        rcases own_mark with rfl | rfl
        · exact absurd rfl noMark.1
        · exact absurd rfl noMark.2
    · intro unquoted
      cases value with
      | quoted mark content => exact Bool.noConfusion unquoted
      | bare content =>
        obtain ⟨some_content, inside⟩ := value_legible
        refine ⟨rfl, fun c last => ?_⟩
        rw [WrittenValue.text, List.getLast?_append, List.getLast?_eq_some_getLast some_content,
          Option.some_or] at last
        have bare := inside c (by rw [← Option.some.inj last]; exact List.getLast_mem some_content)
        constructor <;> rintro rfl <;> exact absurd bare (by decide)

/-- The attribute that declares parameters. -/
def WrittenAttribute.declaring (var parameters : Text) : WrittenAttribute :=
  ⟨[' '], var, some ⟨[], [], .quoted '"' (MacroBody.attributeQuoted parameters)⟩⟩

/-- The pieces of an element in its source, and how another start tag of its kind would read in its place. -/
theorem element_tokens {source : Text} {row children : List Node} {tag : Tag} {stop : Nat}
    (siblings : Siblings source.nodes row) (member : .element tag stop children ∈ row) :
    ∃ before first tail after written left, Scan.tokens source = before ++ (first :: tail) ++ after ∧
      first.tag? = some written ∧ written.Legible ∧ tag = written.located (spelling before).byteSize ∧
      stop = (spelling before).byteSize + (spelling (first :: tail)).byteSize ∧
      (written.isWhole = true → first = .startTag written ∧ tail = []) ∧
      ∀ (other : WrittenTag) (move : Nat → Nat), Alike written other →
        Moves move ((spelling before).byteSize + written.text.byteSize) other.text.byteSize →
        Formed [] 0 (first.retagged other :: tail) [.element (other.located 0)
          (spelling (first.retagged other :: tail)).byteSize (children.map (Node.relocated move))] left := by
  obtain ⟨_, document⟩ := formed_nodes source
  obtain ⟨outer, before, inner, after, _, pieces, formed⟩ := document.siblings siblings
  obtain ⟨before', mid, after', left, rfl, element⟩ := formed.element member
  rw [Nat.zero_add, ← byteSize_spelling_append] at element
  obtain ⟨first, tail, written, rfl, tagged, rfl, rfl, wholly, retag⟩ := element.retagged
  have here : Scan.tokens source = (before ++ before') ++ (first :: tail) ++ (after' ++ after) := by
    rw [pieces]
    simp only [List.append_assoc]
  have own := Scan.tokens_legible source first (by rw [here]; simp)
  exact ⟨_, first, tail, _, written, left, here, tagged, own.tagged tagged, rfl, rfl, wholly own, retag⟩

/-- An element as it is written in its source. -/
theorem written_element {source : Text} {row children : List Node} {tag : Tag} {stop : Nat}
    (siblings : Siblings source.nodes row) (member : .element tag stop children ∈ row) :
    ∃ start first tail written left, Stands source start (spelling (first :: tail)) ∧
      Scan.tokens (spelling (first :: tail)) = first :: tail ∧ first.tag? = some written ∧
      written.Legible ∧ tag = written.located start ∧ stop = start + (spelling (first :: tail)).byteSize ∧
      (written.isWhole = true → first = .startTag written ∧ tail = []) ∧
      ∀ (other : WrittenTag) (move : Nat → Nat), Alike written other →
        Moves move (start + written.text.byteSize) other.text.byteSize →
        Formed [] 0 (first.retagged other :: tail) [.element (other.located 0)
          (spelling (first.retagged other :: tail)).byteSize (children.map (Node.relocated move))] left := by
  obtain ⟨before, first, tail, after, written, left, here, known⟩ := element_tokens siblings member
  refine ⟨_, first, tail, written, left, ⟨spelling before, spelling after, ?_, rfl⟩,
    Scan.tokens_excerpt here, known⟩
  rw [← spelling_append, ← spelling_append, ← here, spelling, Scan.tokens_spells]

section

variable {written : WrittenTag} {before after : List WrittenAttribute} {own : WrittenAttribute}
  {blanks : Text} {blank : Char}

/-- The body that an element gives is the element with the declaration of parameters, if there are some, in
place of the attribute and of the blank before it. -/
theorem ofElement_text_eq {source rest : Text} {start : Nat}
    (stands : Stands source start (written.text ++ rest))
    (split : written.attributes = before ++ own :: after) (gap : own.gap = blanks ++ [blank])
    (one : blank.utf8Size = 1) (var : Text) (parameters : Option Text) :
    (MacroBody.ofElement source (written.located start) (start + Text.byteSize (written.text ++ rest))
      (own.located (start + 1 + Text.byteSize written.name + sizeInRow before)) var parameters).text =
      '<' :: written.name ++ before.flatMap WrittenAttribute.text ++ blanks ++
        (parameters.map fun p => (WrittenAttribute.declaring var p).text).getD [] ++
        (after.flatMap WrittenAttribute.text ++ written.ending ++ rest) := by
  obtain ⟨cut, spelled, size, _⟩ := size_of_gap gap one
  have parts : written.text ++ rest =
      ('<' :: written.name ++ before.flatMap WrittenAttribute.text ++ blanks) ++ ((blank :: cut) ++
        (after.flatMap WrittenAttribute.text ++ written.ending ++ rest)) := by
    rw [WrittenTag.text_eq, split, List.flatMap_append, List.flatMap_cons, spelled]
    simp only [List.append_assoc, List.cons_append]
  have front : Text.byteSize ('<' :: written.name ++ before.flatMap WrittenAttribute.text ++ blanks) =
      1 + Text.byteSize written.name + sizeInRow before + blanks.byteSize := by
    rw [Text.byteSize_append, Text.byteSize_append]
    rfl
  have cut_size : Text.byteSize (blank :: cut) = 1 + Text.byteSize cut := by
    rw [Text.byteSize_cons, one]
  rw [parts] at stands
  obtain ⟨head, tail⟩ := stands.around
  rw [← parts, front, cut_size] at tail
  rw [front] at head
  obtain ⟨span_start, span_stop⟩ :=
    located_span (start + 1 + Text.byteSize written.name + sizeInRow before) gap one
  have lo : max ((own.located (start + 1 + Text.byteSize written.name + sizeInRow before)).span.start - 1)
      start = start + (1 + Text.byteSize written.name + sizeInRow before + blanks.byteSize) := by
    omega
  have hi : (own.located (start + 1 + Text.byteSize written.name + sizeInRow before)).span.stop =
      start + (1 + Text.byteSize written.name + sizeInRow before + blanks.byteSize) +
        (1 + Text.byteSize cut) := by
    omega
  show source.slice start (max _ start) ++ _ ++ source.slice _ _ = _
  rw [lo, hi, head, tail]
  cases parameters with
  | none => rfl
  | some p =>
    simp only [WrittenAttribute.text, WrittenAttribute.declaring, Assignment.text, WrittenValue.text,
      Option.map_some, Option.getD_some, List.append_assoc, List.cons_append, List.nil_append]

/-- Without parameters the body is spelled by the tag without the attribute, and what follows it. -/
theorem ofElement_text {source rest : Text} {start : Nat} (stands : Stands source start (written.text ++ rest))
    (split : written.attributes = before ++ own :: after) (gap : own.gap = blanks ++ [blank])
    (one : blank.utf8Size = 1) (var : Text) :
    (MacroBody.ofElement source (written.located start) (start + Text.byteSize (written.text ++ rest))
      (own.located (start + 1 + Text.byteSize written.name + sizeInRow before)) var none).text =
      (written.without before blanks after).text ++ rest := by
  rw [ofElement_text_eq stands split gap one, WrittenTag.text_without]
  simp only [Option.map_none, Option.getD_none, List.append_assoc, List.cons_append, List.append_nil]

/-- The last two attributes of a tag, and what follows them. -/
theorem last_attributes {source : Text} {start : Nat} {earlier : List WrittenAttribute}
    {last : WrittenAttribute} (stands : Stands source start written.text)
    (split : written.attributes = (earlier ++ [last]) ++ [own]) :
    let position := start + 1 + Text.byteSize written.name
    (written.located start).attributes = locatedInRow position earlier ++
        [last.located (position + sizeInRow earlier), own.located (position + sizeInRow (earlier ++ [last]))] ∧
      Stands source (position + sizeInRow earlier) last.text ∧
      source.at ⟨(own.located (position + sizeInRow (earlier ++ [last]))).span.stop,
        (written.located start).span.stop⟩ = written.ending := by
  intro position
  have spelled : written.text = ('<' :: written.name) ++ (earlier.flatMap WrittenAttribute.text ++
      (last.text ++ (own.text ++ written.ending))) := by
    rw [WrittenTag.text_eq, split]
    simp only [List.flatMap_append, List.flatMap_cons, List.flatMap_nil, List.append_nil, List.append_assoc,
      List.cons_append, List.nil_append]
  have name_size : start + Text.byteSize ('<' :: written.name) = position := (Nat.add_assoc ..).symm
  refine ⟨?_, ?_, ?_⟩
  · show locatedInRow position written.attributes = _
    rw [split, locatedInRow_append, locatedInRow_append, List.append_assoc]
    rfl
  · rw [spelled] at stands
    have here := stands.right.right.left
    rwa [name_size] at here
  · have hi : (own.located (position + sizeInRow (earlier ++ [last]))).span.stop =
        start + Text.byteSize ('<' :: written.name) +
          Text.byteSize (earlier.flatMap WrittenAttribute.text) + last.text.byteSize + own.text.byteSize := by
      rw [name_size, Nat.add_assoc position]
      exact congrArg (position + · + own.text.byteSize) (sizeInRow_concat earlier last)
    have stop : (written.located start).span.stop =
        (own.located (position + sizeInRow (earlier ++ [last]))).span.stop + written.ending.byteSize := by
      have total : (written.located start).span.stop = start + written.text.byteSize := rfl
      rw [total, hi, spelled, Text.byteSize_append, Text.byteSize_append, Text.byteSize_append,
        Text.byteSize_append]
      omega
    rw [spelled] at stands
    have here := stands.right.right.right.right.slice
    rw [← hi, ← stop] at here
    exact here

/-- Where the slash would join a value, the attribute parts them. -/
theorem parts_of_written {source : Text} {start : Nat} {earlier : List WrittenAttribute}
    {last : WrittenAttribute} (stands : Stands source start written.text) (legible : written.Legible)
    (split : written.attributes = (earlier ++ [last]) ++ [own]) (gap : own.gap = [blank])
    (one : blank.utf8Size = 1) (slash : written.slash = true) (noGap : written.gap = [])
    (unquoted : last.isUnquoted = true) : Parts source (written.located start)
      (own.located (start + 1 + Text.byteSize written.name + sizeInRow (earlier ++ [last]))) := by
  obtain ⟨attributes, here, ending⟩ := last_attributes stands split
  refine ⟨_, _, attributes, ?_, ?_, ?_⟩
  · exact (endsBare_located (legible.attributes last (by rw [split]; simp)) here).mpr unquoted
  · have gap_size : Text.byteSize own.gap = 1 := by
      rw [gap]
      exact one
    simp only [WrittenAttribute.located, gap_size, sizeInRow_concat]
    omega
  · rw [ending, WrittenTag.ending, noGap, slash]
    rfl

theorem locatedInRow_eq_pair {start : Nat} {list : List WrittenAttribute} {a b : Attribute}
    (located : locatedInRow start list = [a, b]) : ∃ last own, list = [last, own] ∧
      a = last.located start ∧ b = own.located (start + last.text.byteSize) := by
  match list, located with
  | [last, own], eq =>
    obtain ⟨first, rest⟩ := List.cons.inj eq
    exact ⟨last, own, rfl, first.symm, (List.cons.inj rest).1.symm⟩
  | [], no => simp [locatedInRow] at no
  | [_], no => simp [locatedInRow] at no
  | _ :: _ :: _ :: _, no => simp [locatedInRow] at no

/-- A tag that ends in nothing but a slash and a bracket. -/
theorem WrittenTag.Legible.of_ending (legible : written.Legible) (slash : written.ending = ['/', '>']) :
    written.gap = [] ∧ written.slash = true := by
  rw [WrittenTag.ending] at slash
  cases slashed : written.slash with
  | true =>
    rw [slashed, if_pos rfl, List.append_assoc] at slash
    have short := congrArg List.length slash
    simp at short
    exact ⟨short, rfl⟩
  | false =>
    rw [slashed, if_neg (by simp), List.append_nil] at slash
    cases gap : written.gap with
    | nil =>
      rw [gap] at slash
      simp at slash
    | cons c more =>
      -- the slash would be a blank
      have blank := legible.gap c (by rw [gap]; exact List.mem_cons_self)
      rw [gap] at slash
      obtain ⟨rfl, _⟩ := List.cons.inj slash
      exact absurd blank (by decide)

/-- Where an attribute parts the slash from a value, this is how the tag is written. -/
theorem written_of_parts {source : Text} {start : Nat} {a : Attribute}
    (stands : Stands source start written.text) (legible : written.Legible)
    (parts : Parts source (written.located start) a) : ∃ earlier last own blank,
      written.attributes = (earlier ++ [last]) ++ [own] ∧ own.gap = [blank] ∧
      a = own.located (start + 1 + Text.byteSize written.name + sizeInRow (earlier ++ [last])) ∧
      last.isUnquoted = true ∧ written.gap = [] ∧ written.slash = true := by
  obtain ⟨listed, previous, split, bare, one_apart, slash⟩ := parts
  obtain ⟨earlier, two, eq, rfl, behind⟩ := locatedInRow_eq_append split
  obtain ⟨last, own, rfl, rfl, rfl⟩ := locatedInRow_eq_pair behind
  have attributes : written.attributes = (earlier ++ [last]) ++ [own] := by
    rw [eq, List.append_assoc, List.singleton_append]
  rw [Nat.add_assoc _ (sizeInRow earlier), ← sizeInRow_concat] at one_apart slash ⊢
  obtain ⟨_, here, ending⟩ := last_attributes stands attributes
  have unquoted := (endsBare_located (legible.attributes last (by rw [attributes]; simp)) here).mp bare
  obtain ⟨blanks, blank, gap, one, _⟩ :=
    (legible.attributes own (by rw [attributes]; simp)).last_blank
  obtain ⟨_, _, _, gap_size⟩ := size_of_gap gap one
  have noBlanks : blanks = [] := by
    cases blanks with
    | nil => rfl
    | cons c blanks =>
      have positive := Text.byteSize_pos (List.cons_ne_nil c blanks)
      simp only [WrittenAttribute.located, gap_size, sizeInRow_concat] at one_apart
      omega
  subst noBlanks
  exact ⟨earlier, last, own, blank, attributes, gap, rfl, unquoted, legible.of_ending (ending.symm.trans slash)⟩

end

/-- The value without quotation marks, and a slash that has become a part of it. -/
def WrittenAttribute.slashed (a : WrittenAttribute) : WrittenAttribute :=
  { a with assignment := a.assignment.map fun written =>
      { written with value := .bare (written.value.content ++ ['/']) } }

/-- The tag with the last of these attributes in front of its slash, as it reads. -/
def WrittenTag.slashed (tag : WrittenTag) (earlier : List WrittenAttribute) (last : WrittenAttribute) :
    WrittenTag :=
  { tag with attributes := earlier ++ [last.slashed], gap := [], slash := false }

theorem WrittenAttribute.text_slashed {a : WrittenAttribute} (unquoted : a.isUnquoted = true) :
    a.slashed.text = a.text ++ ['/'] := by
  obtain ⟨gap, name, _ | ⟨before, after, _ | content⟩⟩ := a
  · exact Bool.noConfusion unquoted
  · exact Bool.noConfusion unquoted
  · simp only [slashed, text, Option.map_some, Assignment.text, WrittenValue.text, WrittenValue.content,
      List.append_assoc]

theorem WrittenAttribute.Legible.slashed {a : WrittenAttribute} (legible : a.Legible)
    (unquoted : a.isUnquoted = true) : a.slashed.Legible := by
  obtain ⟨gap, name, _ | ⟨before, after, _ | content⟩⟩ := a
  · exact Bool.noConfusion unquoted
  · exact Bool.noConfusion unquoted
  · obtain ⟨own_before, own_after, _, inside⟩ := legible.assignment _ rfl
    refine ⟨legible.some_gap, legible.gap, legible.some_name, legible.name, fun assignment eq => ?_⟩
    obtain rfl := Option.some.inj eq
    refine ⟨own_before, own_after, by simp [WrittenValue.content], fun c member => ?_⟩
    rcases List.mem_append.mp member with member | member
    · exact inside c member
    · obtain rfl := List.mem_singleton.mp member
      decide

section

variable {tag : WrittenTag} {earlier : List WrittenAttribute} {last : WrittenAttribute}

theorem WrittenTag.Legible.slashed (legible : tag.Legible) (among : ∀ a ∈ earlier ++ [last], a.Legible)
    (unquoted : last.isUnquoted = true) : (tag.slashed earlier last).Legible := by
  refine ⟨legible.name, fun a member => ?_, fun c member => absurd member List.not_mem_nil,
    fun no => Bool.noConfusion no⟩
  rcases List.mem_append.mp member with member | member
  · exact among a (List.mem_append_left _ member)
  · rw [List.mem_singleton.mp member]
    exact (among last (by simp)).slashed unquoted

/-- The slash is written where it was, right behind the value. -/
theorem WrittenTag.text_slashed (unquoted : last.isUnquoted = true) (noGap : tag.gap = [])
    (slash : tag.slash = true) :
    (tag.slashed earlier last).text = (tag.without (earlier ++ [last]) [] []).text := by
  have ending : tag.ending = ['/', '>'] := by
    rw [WrittenTag.ending, noGap, slash]
    rfl
  have last_text := WrittenAttribute.text_slashed unquoted
  rw [WrittenTag.text_without, ending]
  simp only [WrittenTag.slashed, WrittenTag.text, List.flatMap_append, List.flatMap_cons, List.flatMap_nil,
    last_text, Bool.false_eq_true, if_false, List.append_nil, List.append_assoc, List.cons_append,
    List.nil_append]

/-- The value has become longer. -/
theorem WrittenTag.located_slashed_ne (unquoted : last.isUnquoted = true) :
    (tag.slashed earlier last).located 0 ≠ (tag.without (earlier ++ [last]) [] []).located 0 := by
  intro same
  have rows : locatedInRow (0 + 1 + Text.byteSize tag.name) (earlier ++ [last.slashed]) =
      locatedInRow (0 + 1 + Text.byteSize tag.name) (earlier ++ [last]) := congrArg Tag.attributes same
  rw [locatedInRow_append, locatedInRow_append] at rows
  have spans := congrArg (fun a : Attribute => a.span.stop)
    (List.cons.inj (List.append_cancel_left rows)).1
  simp only [WrittenAttribute.located, WrittenAttribute.text_slashed unquoted, Text.byteSize_append] at spans
  have positive := Text.byteSize_pos (List.cons_ne_nil '/' [])
  omega

end

/-- A start tag alone is an element. -/
theorem nodes_of_tag {tag : WrittenTag} (legible : tag.Legible) :
    tag.text.nodes = [.element (tag.located 0) tag.text.byteSize []] := by
  have read := Scan.token?_startTag legible []
  rw [Scan.element?, Scan.startTag?_text legible, Option.map_some, List.append_nil] at read
  cases opens : tag.opensRawText with
  | true =>
    have empty : Scan.rawContent tag.name.lower [] = ([], []) := rfl
    simp only [opens, if_true, empty] at read
    have formed : Formed [] 0 [.rawElement tag []] _ [] := .raw .done
    rw [Token.text, List.append_nil, Nat.zero_add] at formed
    rw [Text.nodes, Scan.tokens_of_some read, Scan.tokens_nil]
    exact formed.finish
  | false =>
    simp only [opens, Bool.false_eq_true, if_false] at read
    rw [Text.nodes, Scan.tokens_of_some read, Scan.tokens_nil]
    cases whole : tag.isWhole with
    | true =>
      have formed : Formed [] 0 [.startTag tag] _ [] := .whole whole .done
      rw [Nat.zero_add] at formed
      exact formed.finish
    | false =>
      have formed : Formed [] 0 [.startTag tag] _ ([] ++ [tag.name]) := .unclosed whole .done
      rw [byteSize_spelling_singleton, Nat.zero_add] at formed
      exact formed.finish

theorem nodes_of_body {source : Text} {row children : List Node} {tag : Tag} {stop : Nat} {a : Attribute}
    (siblings : Siblings source.nodes row) (member : .element tag stop children ∈ row)
    (inside : a ∈ tag.attributes) (apart : ¬ Parts source tag a) (var : Text) :
    (MacroBody.ofElement source tag stop a var none).text.nodes =
      [(Node.element { tag with attributes := tag.attributes.erase a } stop children).relocated
        (afterCut tag.span.start (a.span.start - 1) a.span.stop)] := by
  obtain ⟨start, first, tail, written, left, stands, read, tagged, legible, rfl, rfl, _, retag⟩ :=
    written_element siblings member
  obtain ⟨before, own, after, split, rfl⟩ := mem_locatedInRow inside
  obtain ⟨blanks, blank, gap, one, blank_gap⟩ := (legible.attributes own (by rw [split]; simp)).last_blank
  have alike : Alike written (written.without before blanks after) :=
    ⟨written.without_name .., written.without_slash ..⟩
  have spelled : spelling (first :: tail) = written.text ++ (first.content ++ spelling tail) := by
    rw [spelling_cons, Token.text_of_tag tagged, List.append_assoc]
  have spelled' : spelling (first.retagged (written.without before blanks after) :: tail) =
      (written.without before blanks after).text ++ (first.content ++ spelling tail) := by
    rw [spelling_cons, Token.text_retagged tagged, List.append_assoc]
  rw [spelled] at stands
  have legible' : (written.without before blanks after).Legible := by
    refine legible.without split blank_gap fun slash noGap last_one noBlanks last last_before => ?_
    subst last_one noBlanks
    obtain ⟨earlier, rfl⟩ := List.getLast?_eq_some_iff.mp last_before
    rw [← Bool.not_eq_true]
    exact fun unquoted => apart (parts_of_written stands.left legible split gap one slash noGap unquoted)
  have moves := moves_afterCut start split gap one
  have body := ofElement_text stands split gap one var
  rw [← spelled, ← spelled'] at body
  have formed := retag _ _ alike moves
  rw [show (MacroBody.ofElement source (written.located start) _ _ var none).text = _ from body, Text.nodes,
    Scan.tokens_retagged read tagged alike legible', formed.finish]
  have located := WrittenTag.located_without start split gap one
  have stop := moves (Text.byteSize (first.content ++ spelling tail))
  rw [Nat.add_assoc start written.text.byteSize, ← Text.byteSize_append, ← Text.byteSize_append,
    ← spelled, ← spelled'] at stop
  rw [Node.relocated, relocatedInRow_eq_map]
  rw [show (written.located start).span.start = start from rfl, stop]
  rw [← located]

theorem nodes_of_body_otherwise {source : Text} {row children : List Node} {tag : Tag} {stop : Nat}
    {a : Attribute} (siblings : Siblings source.nodes row) (member : .element tag stop children ∈ row)
    (parts : Parts source tag a) (var : Text) :
    (MacroBody.ofElement source tag stop a var none).text.nodes ≠
      [(Node.element { tag with attributes := tag.attributes.erase a } stop children).relocated
        (afterCut tag.span.start (a.span.start - 1) a.span.stop)] := by
  obtain ⟨start, first, tail, written, left, stands, read, tagged, legible, rfl, rfl, wholly, _⟩ :=
    written_element siblings member
  have all : spelling (first :: tail) = written.text ++ (first.content ++ spelling tail) := by
    rw [spelling_cons, Token.text_of_tag tagged, List.append_assoc]
  rw [all] at stands
  obtain ⟨earlier, last, own, blank, split, gap, rfl, unquoted, noGap, slash⟩ :=
    written_of_parts stands.left legible parts
  obtain ⟨rfl, rfl⟩ := wholly (by rw [WrittenTag.isWhole, slash]; rfl)
  have attributes := legible.attributes
  rw [split] at attributes
  have one : blank.utf8Size = 1 := by
    have size := byteSize_gap (attributes own (by simp)).gap
    rw [gap] at size
    exact size
  have gap : own.gap = [] ++ [blank] := gap
  have slashed := legible.slashed (fun a member => attributes a (List.mem_append_left _ member)) unquoted
  have body := ofElement_text stands split gap one var
  rw [← all] at body
  have located := WrittenTag.located_without start split gap one
  intro same
  rw [show (MacroBody.ofElement source (written.located start) _ _ var none).text = _ from body] at same
  have alone : Token.content (.startTag written) ++ spelling [] = [] := rfl
  rw [alone, List.append_nil, ← WrittenTag.text_slashed unquoted noGap slash, nodes_of_tag slashed,
    Node.relocated] at same
  have tags := (Node.element.inj (List.cons.inj same).1).1
  exact WrittenTag.located_slashed_ne unquoted (tags.trans located)

/-- Cutting an attribute out of an element changes nothing else about how the element reads, unless the
attribute is all that parts the slash of the tag from a value without quotation marks. -/
theorem element_body_reads_alike_iff {source : Text} {row children : List Node} {tag : Tag} {stop : Nat}
    {a : Attribute} (siblings : Siblings source.nodes row) (member : .element tag stop children ∈ row)
    (inside : a ∈ tag.attributes) (var : Text) :
    (MacroBody.ofElement source tag stop a var none).text.nodes =
        [(Node.element { tag with attributes := tag.attributes.erase a } stop children).relocated
          (afterCut tag.span.start (a.span.start - 1) a.span.stop)] ↔
      ¬ Parts source tag a :=
  ⟨fun same parts => nodes_of_body_otherwise siblings member parts var same,
    fun apart => nodes_of_body siblings member inside apart var⟩

/-- A value without quotation marks right before the attribute, in an element with content. -/
theorem element_body_reads_alike_in_list :
    let source : Text := "<ul><li if=x macro='m'>y<br/></ul>"
    let condition : Attribute := ⟨"if", some "x", ⟨8, 12⟩, some 11⟩
    let declaration : Attribute := ⟨"macro", some "m", ⟨13, 22⟩, some 20⟩
    let children : List Node := [.element ⟨"br", [], ⟨24, 29⟩⟩ 29 []]
    let item : Node := .element ⟨"li", [condition, declaration], ⟨4, 23⟩⟩ 29 children
    Siblings source.nodes [item] ∧
      (MacroBody.ofElement source ⟨"li", [condition, declaration], ⟨4, 23⟩⟩ 29 declaration "var" none).text.nodes =
        [(Node.element ⟨"li", [condition], ⟨4, 23⟩⟩ 29 children).relocated (afterCut 4 12 22)] := by
  intro source condition declaration children item
  have list : source.nodes = [.element ⟨"ul", [], ⟨0, 4⟩⟩ 34 [item]] := by decide +kernel
  have siblings : Siblings source.nodes [item] :=
    .children .roots (by rw [list]; exact List.mem_cons_self)
  have apart : ¬ Parts source ⟨"li", [condition, declaration], ⟨4, 23⟩⟩ declaration := by
    rintro ⟨_, _, _, _, _, slash⟩
    exact absurd slash (by decide +kernel)
  exact ⟨siblings, (element_body_reads_alike_iff siblings List.mem_cons_self (by simp) "var").mpr apart⟩

/-- Without the attribute in between, the slash is read as a part of the value, and the element no
longer ends with its tag. -/
theorem element_body_takes_slash_into_value :
    let source : Text := "<p if=x macro='m'/>"
    let condition : Attribute := ⟨"if", some "x", ⟨3, 7⟩, some 6⟩
    let declaration : Attribute := ⟨"macro", some "m", ⟨8, 17⟩, some 15⟩
    let body := (MacroBody.ofElement source ⟨"p", [condition, declaration], ⟨0, 19⟩⟩ 19 declaration "var" none).text
    source.nodes = [.element ⟨"p", [condition, declaration], ⟨0, 19⟩⟩ 19 []] ∧
      body.nodes = [.element ⟨"p", [⟨"if", some "x/", ⟨3, 8⟩, some 6⟩], ⟨0, 9⟩⟩ 9 []] ∧
      body.nodes ≠ [(Node.element ⟨"p", [condition], ⟨0, 19⟩⟩ 19 []).relocated (afterCut 0 7 17)] := by
  decide +kernel

end MarkupTemplates
