import MarkupTemplates.Markup.Reference
import MarkupTemplates.ParsedTemplate.MacroBody
import MarkupTemplates.Proofs.Markup.Legible

namespace MarkupTemplates

theorem Text.cutAt?_of_not_mem {mark : Char} {t : Text} (without : mark ∉ t) : t.cutAt? mark = none := by
  have inside : ∀ c ∈ t, (c != mark) = true := by
    intro c member
    rw [bne_iff_ne]
    rintro rfl
    exact without member
  have read := Scan.run_append (t := []) inside nofun
  rw [List.append_nil] at read
  rw [cutAt?, (Prod.mk.inj read).2]

/-- What stands in front of the first mark does not depend on what follows it. -/
theorem Text.cutAt?_append_of_not_mem {mark : Char} (t : Text) {more : Text} (without : mark ∉ more) :
    Text.cutAt? mark (t ++ more) = (Text.cutAt? mark t).map fun (before, rest) => (before, rest ++ more) := by
  cases found : Text.cutAt? mark t with
  | some read =>
    obtain ⟨before, rest⟩ := read
    have apart := Scan.cutAt?_without found
    rw [Text.eq_append_of_cutAt? found, List.append_assoc, List.cons_append, Scan.cutAt?_append _ apart]
    rfl
  | none =>
    rw [Text.cutAt?_of_not_mem]
    · rfl
    · intro member
      rcases List.mem_append.mp member with member | member
      · obtain ⟨before, rest, rfl, first⟩ := List.eq_append_cons_of_mem member
        rw [Scan.cutAt?_append rest first] at found
        exact absurd found nofun
      · exact without member

theorem reference?_append (t : Text) {more : Text} (without : ';' ∉ more) :
    reference? (t ++ more) = (reference? t).map fun (c, rest) => (c, rest ++ more) := by
  rw [reference?, reference?, Text.cutAt?_append_of_not_mem t without]
  cases Text.cutAt? ';' t with
  | none => rfl
  | some read => cases h : referenced? read.1 <;> simp [h]

namespace Text

theorem resolved_other {c : Char} (other : c ≠ '&') (t : Text) : resolved (c :: t) = c :: resolved t := by
  rw [resolved, if_neg other]

theorem resolved_past {before : Text} (plain : '&' ∉ before) (t : Text) :
    resolved (before ++ t) = before ++ resolved t := by
  induction before with
  | nil => rfl
  | cons c before ih =>
    obtain ⟨first, others⟩ : c ≠ '&' ∧ '&' ∉ before := by simpa [eq_comm] using plain
    rw [List.cons_append, resolved_other first, ih others, List.cons_append]

theorem resolved_reference {t rest : Text} {d : Char} (read : reference? t = some (d, rest)) :
    resolved ('&' :: t) = d :: resolved rest := by
  rw [resolved, if_pos rfl]
  split
  · next d' rest' read' =>
    rw [read] at read'
    obtain ⟨rfl, rfl⟩ := Prod.mk.inj (Option.some.inj read')
    rfl
  · next none => cases read.symm.trans none

theorem resolved_ampersand {t : Text} (none : reference? t = none) :
    resolved ('&' :: t) = '&' :: resolved t := by
  rw [resolved, if_pos rfl]
  split
  · next found => cases none.symm.trans found
  · rfl

/-- No reference goes on into a text that holds no semicolon. -/
theorem resolved_append (t : Text) {more : Text} (without : ';' ∉ more) (plain : '&' ∉ more) :
    resolved (t ++ more) = resolved t ++ more := by
  have alone : resolved more = more := by
    clear without
    induction more with
    | nil => rw [resolved]
    | cons c more ih =>
      have other : c ≠ '&' := fun eq => plain (eq ▸ List.mem_cons_self)
      rw [resolved_other other, ih fun member => plain (List.mem_cons_of_mem c member)]
  fun_induction resolved t with
  | case1 => exact alone
  | case2 t d rest read _ ih =>
    have extended := reference?_append t without
    rw [read, Option.map_some] at extended
    rw [List.cons_append, resolved_reference extended, ih, List.cons_append]
  | case3 t none ih =>
    have extended := reference?_append t without
    rw [none, Option.map_none] at extended
    rw [List.cons_append, resolved_ampersand extended, ih, List.cons_append]
  | case4 c t other ih => rw [List.cons_append, resolved_other other, ih, List.cons_append]

end Text

namespace MacroBody

theorem attributeQuoted_cons (c : Char) (t : Text) : attributeQuoted (c :: t) =
    (if c = '&' then ("&amp;" : Text) else if c = '"' then ("&quot;" : Text) else [c]) ++ attributeQuoted t := by
  by_cases ampersand : c = '&'
  · subst ampersand
    rfl
  · by_cases quote : c = '"'
    · subst quote
      rfl
    · simp only [attributeQuoted, Text.replace, List.flatMap_cons, if_neg ampersand, if_neg quote,
        List.flatMap_append, List.flatMap_nil, List.append_nil]

/-- Between quotation marks a text is written without such marks. -/
theorem quote_not_mem_attributeQuoted (t : Text) : '"' ∉ attributeQuoted t := by
  induction t with
  | nil => exact List.not_mem_nil
  | cons c t ih =>
    rw [attributeQuoted_cons, List.mem_append, not_or]
    refine ⟨?_, ih⟩
    split
    · decide
    · split
      · decide
      · next other => exact fun member => other (List.mem_singleton.mp member).symm

/-- What is written for an attribute is read as it was meant. -/
theorem resolved_attributeQuoted (t : Text) : Text.resolved (attributeQuoted t) = t := by
  induction t with
  | nil => rw [attributeQuoted, Text.replace, Text.replace, List.flatMap_nil, List.flatMap_nil, Text.resolved]
  | cons c t ih =>
    have referenced (name : Text) {d : Char} (known : referenced? name = some d) (apart : ';' ∉ name) :
        Text.resolved ('&' :: (name ++ ';' :: attributeQuoted t)) = d :: t := by
      have read : reference? (name ++ ';' :: attributeQuoted t) = some (d, attributeQuoted t) := by
        rw [reference?, Scan.cutAt?_append _ apart]
        simp only [known, Option.map_some]
      rw [Text.resolved_reference read, ih]
    rw [attributeQuoted_cons]
    split
    · next ampersand =>
      subst ampersand
      exact referenced "amp" (by decide) (by decide)
    · next other =>
      split
      · next quote =>
        subst quote
        exact referenced "quot" (by decide) (by decide)
      · rw [List.singleton_append, Text.resolved_other other, ih]

end MacroBody

end MarkupTemplates
