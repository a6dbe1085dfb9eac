import MarkupTemplates.Proofs.Markup.Formation
import MarkupTemplates.Proofs.Markup.Legible

namespace MarkupTemplates

namespace Text

theorem after?_extend {head t rest : Text} (more : Text) (h : after? head t = some rest) :
    after? head (t ++ more) = some (rest ++ more) := by
  rw [eq_append_of_after? h, List.append_assoc, after?_append]

theorem after?_eq_none_of_append {head t more : Text} (h : after? head (t ++ more) = none) :
    after? head t = none := by
  cases found : after? head t with
  | none => rfl
  | some rest => simp [after?_extend more found] at h

/-- The first occurrence of a mark is found no matter where the text after it ends. -/
theorem cut?_of_append {mark t more before rest : Text} (some_mark : mark ≠ [])
    (h : cut? mark (t ++ more) = some (before, rest ++ more)) : cut? mark t = some (before, rest) := by
  induction t generalizing before with
  | nil =>
    have size := congrArg List.length (eq_append_of_cut? h)
    have := List.length_pos_iff.mpr some_mark
    simp only [List.nil_append, List.length_append] at size
    omega
  | cons c t ih =>
    rw [List.cons_append, cut?] at h
    rw [cut?]
    split at h
    · next after found =>
      obtain ⟨rfl, rfl⟩ := Prod.mk.inj (Option.some.inj h)
      have spelled := eq_append_of_after? found
      rw [← List.cons_append, ← List.append_assoc] at spelled
      rw [List.append_cancel_right spelled, after?_append]
    · next missing =>
      obtain ⟨⟨before', rest'⟩, found, eq⟩ := Option.map_eq_some_iff.mp h
      obtain ⟨rfl, rfl⟩ := Prod.mk.inj eq
      rw [after?_eq_none_of_append missing, ih found]
      rfl

end Text

namespace Scan

theorem through_of_append {mark t more taken rest : Text} (some_mark : mark ≠ []) (some_more : more ≠ [])
    (h : through mark (t ++ more) = (taken, rest ++ more)) : through mark t = (taken, rest) := by
  unfold through at h ⊢
  split at h
  · next before after found =>
    obtain ⟨rfl, rfl⟩ := Prod.mk.inj h
    rw [Text.cut?_of_append some_mark found]
  · exact absurd (List.append_eq_nil_iff.mp (Prod.mk.inj h).2.symm).2 some_more

theorem construct?_of_append {opening closing t more rest : Text} {wrap : Text → Token} {token : Token}
    (some_closing : closing ≠ []) (some_more : more ≠ [])
    (h : construct? opening closing wrap (t ++ more) = some (token, rest ++ more)) :
    construct? opening closing wrap t = some (token, rest) := by
  obtain ⟨inner, opened, eq⟩ := Option.map_eq_some_iff.mp h
  obtain ⟨rfl, last⟩ := Prod.mk.inj eq
  have spelled := through_spells closing inner
  rw [last, ← List.append_assoc] at spelled
  have whole := Text.eq_append_of_after? opened
  rw [← spelled, ← List.append_assoc] at whole
  have closed : through closing ((through closing inner).1 ++ rest) = ((through closing inner).1, rest) :=
    through_of_append some_closing some_more (by rw [spelled, ← last])
  rw [construct?, List.append_cancel_right whole, Text.after?_append, Option.map_some, closed]

theorem construct?_eq_none_of_append {opening closing t more : Text} {wrap : Text → Token}
    (h : construct? opening closing wrap (t ++ more) = none) : construct? opening closing wrap t = none := by
  rw [construct?, Option.map_eq_none_iff] at h ⊢
  exact Text.after?_eq_none_of_append h

theorem endTag?_of_append {t more rest : Text} {token : Token}
    (h : endTag? (t ++ more) = some (token, rest ++ more)) : endTag? t = some (token, rest) := by
  have legible := endTag?_legible h
  have spelled := endTag?_spells h
  obtain ⟨name, gap, rfl⟩ := endTag?_form h
  rw [← List.append_assoc] at spelled
  rw [List.append_cancel_right spelled]
  exact endTag?_text legible rest

theorem endTag?_eq_none_of_append {t more : Text} (h : endTag? (t ++ more) = none) :
    endTag? t = none := by
  cases found : endTag? t with
  | none => rfl
  | some read =>
    obtain ⟨token, rest⟩ := read
    have legible := endTag?_legible found
    have spelled := endTag?_spells found
    obtain ⟨name, gap, rfl⟩ := endTag?_form found
    rw [spelled, List.append_assoc, endTag?_text legible] at h
    simp at h

theorem startTag?_of_append {t more rest : Text} {tag : WrittenTag}
    (h : startTag? (t ++ more) = some (tag, rest ++ more)) : startTag? t = some (tag, rest) := by
  have spelled := startTag?_spells h
  rw [← List.append_assoc] at spelled
  rw [List.append_cancel_right spelled]
  exact startTag?_text (startTag?_legible h) rest

theorem element?_eq_none_of_append {t more : Text} (h : element? (t ++ more) = none) :
    element? t = none := by
  rw [element?, Option.map_eq_none_iff] at h ⊢
  cases found : startTag? t with
  | none => rfl
  | some read =>
    obtain ⟨tag, rest⟩ := read
    rw [startTag?_spells found, List.append_assoc, startTag?_text (startTag?_legible found)] at h
    simp at h

theorem lower_append (s t : Text) : Text.lower (s ++ t) = Text.lower s ++ Text.lower t := List.map_append

theorem bracket_not_mem_lower {tag : WrittenTag} (opens : tag.opensRawText = true) : '>' ∉ tag.name.lower := by
  simp only [WrittenTag.opensRawText, Bool.and_eq_true, List.contains_iff_mem] at opens
  have named := opens.2
  simp only [rawTextElements, List.mem_cons, List.not_mem_nil, or_false] at named
  rcases named with named | named <;> rw [named] <;> decide

/-- Raw content that ends within a text ends there no matter where the text after it ends. -/
theorem rawContent_of_append {name t more taken rest : Text} (noBracket : '>' ∉ name)
    (some_more : more ≠ []) (h : rawContent name (t ++ more) = (taken, rest ++ more)) :
    rawContent name t = (taken, rest) := by
  induction t generalizing taken with
  | nil =>
    have spelled := rawContent_spells name more
    rw [List.nil_append] at h
    rw [h] at spelled
    have size := congrArg List.length spelled
    simp only [List.length_append] at size
    obtain rfl : taken = [] := List.eq_nil_of_length_eq_zero (by omega)
    obtain rfl : rest = [] := List.eq_nil_of_length_eq_zero (by omega)
    rfl
  | cons c t ih =>
    rw [List.cons_append, rawContent] at h
    rw [rawContent]
    split at h
    · next after found =>
      -- the bracket that closes the end tag comes after the name, so the name is here as well
      have closed := through_of_append (t := c :: t) (by simp) some_more h
      obtain ⟨before, cut⟩ : ∃ before, Text.cut? ['>'] (c :: t) = some (before, rest) := by
        unfold through at h
        split at h
        · next before after cut =>
          obtain ⟨_, rfl⟩ := Prod.mk.inj h
          exact ⟨before, Text.cut?_of_append (by simp) cut⟩
        · exact absurd (List.append_eq_nil_iff.mp (Prod.mk.inj h).2.symm).2 some_more
      have here := Text.eq_append_of_cut? cut
      have spelled := Text.eq_append_of_after? found
      rw [← List.cons_append, lower_append] at spelled
      have inside : ∃ last, Text.lower (c :: t) = '<' :: '/' :: name ++ last := by
        rcases List.append_eq_append_iff.mp spelled with ⟨last, eq, _⟩ | ⟨last, eq, _⟩
        · have bracket : '>' ∈ Text.lower (c :: t) :=
            List.mem_map.mpr ⟨'>', by rw [here]; simp, rfl⟩
          have among : '>' ∈ '<' :: '/' :: name := by
            rw [eq]
            exact List.mem_append_left _ bracket
          simp [noBracket] at among
        · exact ⟨last, eq⟩
      obtain ⟨last, eq⟩ := inside
      rw [eq, Text.after?_append, closed]
    · next missing =>
      obtain ⟨rfl, last⟩ := Prod.mk.inj h
      rw [← List.cons_append, lower_append] at missing
      rw [Text.after?_eq_none_of_append missing, ih (by rw [← last])]

theorem element?_of_append {t more rest : Text} {token : Token} (some_more : more ≠ [])
    (h : element? (t ++ more) = some (token, rest ++ more)) : element? t = some (token, rest) := by
  obtain ⟨⟨tag, after⟩, found, eq⟩ := Option.map_eq_some_iff.mp h
  cases opens : tag.opensRawText with
  | true =>
    simp only [opens, if_true] at eq
    obtain ⟨rfl, last⟩ := Prod.mk.inj eq
    have spelled := rawContent_spells tag.name.lower after
    rw [last, ← List.append_assoc] at spelled
    rw [← spelled] at found
    have content : rawContent tag.name.lower ((rawContent tag.name.lower after).1 ++ rest) =
        ((rawContent tag.name.lower after).1, rest) :=
      rawContent_of_append (bracket_not_mem_lower opens) some_more (by rw [spelled, ← last])
    simp only [element?, startTag?_of_append found, Option.map_some, opens, if_true, content]
  | false =>
    simp only [opens, Bool.false_eq_true, if_false] at eq
    obtain ⟨rfl, rfl⟩ := Prod.mk.inj eq
    simp only [element?, startTag?_of_append found, Option.map_some, opens, Bool.false_eq_true, if_false]

theorem plain?_of_append {t more rest : Text} {token : Token} (some_text : t ≠ [])
    (h : plain? (t ++ more) = some (token, rest ++ more)) : plain? t = some (token, rest) := by
  obtain ⟨c, t, rfl⟩ := List.exists_cons_of_ne_nil some_text
  rw [List.cons_append, plain?] at h
  obtain ⟨rfl, last⟩ := Prod.mk.inj (Option.some.inj h)
  have read : run (· != '<') (t ++ more) = ((t ++ more).takeWhile (· != '<'), rest ++ more) := by
    rw [run, last]
  have spelled := run_spells read
  rw [← List.append_assoc] at spelled
  have stops : Stops (· != '<') rest := by
    rintro d rest' rfl
    exact run_stops read d _ rfl
  have short := run_append (run_inside read) stops
  rw [← List.append_cancel_right spelled] at short
  obtain ⟨taken, dropped⟩ := Prod.mk.inj short
  rw [plain?, taken, dropped]

/-- Where a text is cut after a piece, the piece reads as before. -/
theorem token?_of_append {t more rest : Text} {token : Token} (some_more : more ≠ [])
    (h : token? (t ++ more) = some (token, rest ++ more)) : token? t = some (token, rest) := by
  have some_text : t ≠ [] := by
    have spelled := token?_spells h
    rw [← List.append_assoc] at spelled
    rw [List.append_cancel_right spelled]
    exact fun none => token?_text_ne_nil h (List.append_eq_nil_iff.mp none).1
  simp only [token?, Option.orElse_eq_orElse, Option.orElse_eq_or, Option.or_eq_some_iff] at h ⊢
  rcases h with h | ⟨noComment, h⟩
  · exact Or.inl (construct?_of_append (by decide) some_more h)
  refine Or.inr ⟨construct?_eq_none_of_append noComment, ?_⟩
  rcases h with h | ⟨noData, h⟩
  · exact Or.inl (construct?_of_append (by decide) some_more h)
  refine Or.inr ⟨construct?_eq_none_of_append noData, ?_⟩
  rcases h with h | ⟨noDeclaration, h⟩
  · exact Or.inl (construct?_of_append (by decide) some_more h)
  refine Or.inr ⟨construct?_eq_none_of_append noDeclaration, ?_⟩
  rcases h with h | ⟨noInstruction, h⟩
  · exact Or.inl (construct?_of_append (by decide) some_more h)
  refine Or.inr ⟨construct?_eq_none_of_append noInstruction, ?_⟩
  rcases h with h | ⟨noEndTag, h⟩
  · exact Or.inl (endTag?_of_append h)
  refine Or.inr ⟨endTag?_eq_none_of_append noEndTag, ?_⟩
  rcases h with h | ⟨noElement, h⟩
  · exact Or.inl (element?_of_append some_more h)
  exact Or.inr ⟨element?_eq_none_of_append noElement, plain?_of_append some_text h⟩

theorem tokens_of_some {t rest : Text} {token : Token} (h : token? t = some (token, rest)) :
    tokens t = token :: tokens rest := by
  rw [tokens]
  split
  · next token' rest' h' =>
    rw [h] at h'
    obtain ⟨rfl, rfl⟩ := Prod.mk.inj (Option.some.inj h')
    rfl
  · next h' => simp [h] at h'

theorem tokens_nil : tokens [] = [] := by
  rw [tokens]
  split
  · next token rest h => simpa using token?_length h
  · rfl

/-- The first piece of a text, if the text has pieces. -/
theorem token?_of_tokens {t : Text} {token : Token} {rest : List Token}
    (h : tokens t = token :: rest) : token? t = some (token, spelling rest) := by
  rw [tokens] at h
  split at h
  · next token' rest' found =>
    obtain ⟨rfl, rfl⟩ := List.cons.inj h
    rw [found, spelling, tokens_spells]
  · simp at h

/-- The pieces after the first ones are the pieces of the text after them. -/
theorem tokens_after {t : Text} {first second : List Token} (h : tokens t = first ++ second) :
    tokens (spelling second) = second := by
  induction first generalizing t with
  | nil => rw [spelling, ← List.nil_append second, ← h, tokens_spells]
  | cons token first ih =>
    have found := token?_of_tokens h
    have rest := tokens_of_some found
    rw [h] at rest
    exact ih (List.cons.inj rest).2.symm

/-- The first pieces of a text are the pieces of the text up to where they end. -/
theorem tokens_before {t : Text} {first second : List Token} (h : tokens t = first ++ second) :
    tokens (spelling first) = first := by
  by_cases none : spelling second = []
  · -- pieces are not empty, so there are none after the first ones
    obtain rfl : second = [] := by
      rw [← tokens_after h, none, tokens_nil]
    rw [List.append_nil] at h
    rw [← h, spelling, tokens_spells]
  · induction first generalizing t with
    | nil => exact tokens_nil
    | cons token first ih =>
      have found := token?_of_tokens h
      have rest := tokens_of_some found
      rw [h] at rest
      have spelled := token?_spells found
      rw [List.append_eq, spelling_append] at found spelled
      rw [spelled, ← List.append_assoc] at found
      rw [spelling_cons, tokens_of_some (token?_of_append none found),
        ih (List.cons.inj rest).2.symm]

/-- A stretch of a document that begins and ends between pieces has the pieces it has there. -/
theorem tokens_excerpt {t : Text} {before middle after : List Token}
    (h : tokens t = before ++ middle ++ after) : tokens (spelling middle) = middle :=
  tokens_before (tokens_after (by rw [h, List.append_assoc]))

end Scan

end MarkupTemplates
