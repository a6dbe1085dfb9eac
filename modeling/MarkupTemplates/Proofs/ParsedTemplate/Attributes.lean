import MarkupTemplates.Proofs.ParsedTemplate.ElementBody

namespace MarkupTemplates

variable {source : Text} {row children : List Node} {tag : Tag} {stop : Nat} {a : Attribute}

/-- An attribute of an element as it is written in the source. -/
theorem written_attribute (siblings : Siblings source.nodes row) (member : .element tag stop children ∈ row)
    (inside : a ∈ tag.attributes) :
    ∃ own start, WrittenAttribute.Legible own ∧ Stands source start own.text ∧ a = own.located start := by
  obtain ⟨start, first, tail, written, _, stands, _, tagged, legible, rfl, _, _, _⟩ :=
    written_element siblings member
  obtain ⟨before, own, after, split, rfl⟩ := mem_locatedInRow inside
  rw [spelling_cons, Token.text_of_tag tagged, List.append_assoc] at stands
  have tag_text : written.text = ('<' :: written.name ++ before.flatMap WrittenAttribute.text) ++
      (own.text ++ (after.flatMap WrittenAttribute.text ++ written.ending)) := by
    rw [WrittenTag.text_eq, split, List.flatMap_append, List.flatMap_cons]
    simp only [List.append_assoc, List.cons_append]
  have own_stands := stands.left
  rw [tag_text] at own_stands
  refine ⟨own, _, legible.attributes own (by rw [split]; simp), own_stands.right.left, ?_⟩
  congr 1
  simp only [Text.byteSize_append, Text.byteSize_cons, show '<'.utf8Size = 1 from rfl, sizeInRow]
  omega

/-- An attribute has a name at least. -/
theorem attribute_span (siblings : Siblings source.nodes row) (member : .element tag stop children ∈ row)
    (inside : a ∈ tag.attributes) : a.span.start < a.span.stop := by
  obtain ⟨own, start, legible, _, rfl⟩ := written_attribute siblings member inside
  have name := Text.byteSize_pos legible.some_name
  simp only [WrittenAttribute.located, WrittenAttribute.text, Text.byteSize_append]
  omega

end MarkupTemplates
