import MarkupTemplates.Proofs.Markup.Comments
import MarkupTemplates.Proofs.Markup.Removal

namespace MarkupTemplates

/-- What is behind the first occurrence of a character that is not in the front. -/
theorem split_behind {α : Type} {front back before after : List α} {c : α} (without : c ∉ front)
    (eq : front ++ back = before ++ c :: after) : ∃ rest, before = front ++ rest ∧ back = rest ++ c :: after := by
  rcases List.append_eq_append_iff.mp eq with ⟨rest, rfl, split⟩ | ⟨rest, rfl, split⟩
  · exact ⟨rest, rfl, split⟩
  · cases rest with
    | nil => exact ⟨[], by rw [List.append_nil, List.append_nil], by rw [List.nil_append]; exact split.symm⟩
    | cons d rest =>
      obtain ⟨rfl, _⟩ := List.cons.inj split
      exact absurd (List.mem_append_right _ List.mem_cons_self) without

/-- Nothing is behind a last character that is not in the front. -/
theorem nothing_behind {α : Type} {front before after : List α} {c : α} (without : c ∉ front)
    (eq : front ++ [c] = before ++ c :: after) : after = [] := by
  obtain ⟨rest, _, last⟩ := split_behind without eq
  have size := congrArg List.length last
  simp only [List.length_append, List.length_cons, List.length_nil] at size
  exact List.eq_nil_of_length_eq_zero (by omega)

namespace Text

/-- A mark that a text does not begin with is not begun by it either, unless the text is a part of the mark. -/
theorem after?_append_eq_none {head t : Text} (more : Text) (missing : after? head t = none)
    (apart : ¬ t <+: head) : after? head (t ++ more) = none := by
  induction head generalizing t with
  | nil => cases missing
  | cons h head ih =>
    cases t with
    | nil => exact absurd List.nil_prefix apart
    | cons c t =>
      rw [List.cons_append, after?]
      rw [after?] at missing
      split at missing
      · next same =>
        subst same
        rw [if_pos rfl]
        exact ih missing fun part => apart (List.cons_prefix_cons.mpr ⟨rfl, part⟩)
      · next other => rw [if_neg other]

/-- The first occurrence of a mark stays the first one when more text follows. -/
theorem cut?_extend {mark t before rest : Text} (more : Text) (found : cut? mark t = some (before, rest)) :
    cut? mark (t ++ more) = some (before, rest ++ more) := by
  induction t generalizing before with
  | nil => cases found
  | cons c t ih =>
    rw [cut?] at found
    rw [List.cons_append, cut?]
    split at found
    · next after read =>
      obtain ⟨rfl, rfl⟩ := Prod.mk.inj (Option.some.inj found)
      have extended := after?_extend more read
      rw [List.cons_append] at extended
      rw [extended]
    · next missing =>
      obtain ⟨⟨before', rest'⟩, later, eq⟩ := Option.map_eq_some_iff.mp found
      obtain ⟨rfl, rfl⟩ := Prod.mk.inj eq
      have apart : ¬ c :: t <+: mark := by
        intro part
        have longer := part.length_le
        have whole := congrArg List.length (eq_append_of_cut? later)
        simp only [List.length_append, List.length_cons] at longer whole
        omega
      have still := after?_append_eq_none more missing apart
      rw [List.cons_append] at still
      rw [still, ih later]
      rfl

end Text

/-- A text that goes on with no start tag that is cut off in front of it: if a quotation mark in it closes the value
that the tag is cut off in, then a letter comes next. -/
def Text.Inert (more : Text) : Prop :=
  ∀ content mark rest, more = content ++ mark :: rest → (mark = '"' ∨ mark = '\'') → mark ∉ content →
    ∃ c rest', rest = c :: rest' ∧ c.isAlpha = true

/-- Content without markup that ends with the end tag of its element. -/
def EndsRaw (name content : Text) : Prop :=
  ∃ text tail, content = text ++ '<' :: '/' :: (tail ++ ['>']) ∧ name <+: Text.lower tail

/-- The piece ends by itself and not with the source. -/
def Token.Ended : Token → Prop
  | startTag _ => True
  | endTag _ _ => True
  | rawElement tag content => EndsRaw (Text.lower tag.name) content
  | _ => False

section

variable {tag : WrittenTag} {t m : Text}

theorem not_bracket_of_isGap {c : Char} (gap : isGap c = true) : c ≠ '>' := by
  rintro rfl
  exact absurd gap (by decide)

/-- A bracket inside an attribute is one in a value between quotation marks. -/
theorem WrittenAttribute.Legible.cut {a : WrittenAttribute} (legible : a.Legible) (eq : a.text = t ++ '>' :: m) :
    ∃ content mark, m = content ++ [mark] ∧ (mark = '"' ∨ mark = '\'') ∧ mark ∉ content := by
  have noGap : '>' ∉ a.gap := fun member => not_bracket_of_isGap (legible.gap _ member) rfl
  have noName : '>' ∉ a.name := fun member => absurd (legible.name _ member) (by decide)
  rw [WrittenAttribute.text, List.append_assoc] at eq
  obtain ⟨_, _, behindGap⟩ := split_behind noGap eq
  obtain ⟨_, _, behindName⟩ := split_behind noName behindGap
  cases assigned : a.assignment with
  | none =>
    rw [assigned] at behindName
    simp at behindName
  | some assignment =>
    rw [assigned] at behindName
    have known := legible.assignment assignment assigned
    have noBefore : '>' ∉ assignment.before := fun member => not_bracket_of_isGap (known.before _ member) rfl
    have noAfter : '>' ∉ '=' :: assignment.after := by
      intro member
      rcases List.mem_cons.mp member with sign | member
      · exact absurd sign (by decide)
      · exact not_bracket_of_isGap (known.after _ member) rfl
    simp only [Assignment.text, List.append_assoc] at behindName
    obtain ⟨_, _, atSign⟩ := split_behind noBefore behindName
    obtain ⟨_, _, atValue⟩ := split_behind noAfter atSign
    have value := known.value
    cases written : assignment.value with
    | bare content =>
      rw [written] at atValue value
      have inside : '>' ∈ content := by
        rw [show content = _ from atValue]
        simp
      exact absurd (value.2 _ inside) (by decide)
    | quoted mark content =>
      rw [written] at atValue value
      obtain ⟨quote, without⟩ := value
      have other : '>' ≠ mark := by rcases quote with rfl | rfl <;> decide
      have noMark : '>' ∉ [mark] := fun member => other (List.mem_singleton.mp member)
      obtain ⟨front, _, inside⟩ := split_behind noMark (show [mark] ++ (content ++ [mark]) = _ from atValue)
      rcases List.eq_nil_or_concat m with rfl | ⟨m, last, rfl⟩
      · have same := List.append_inj' inside rfl
        exact absurd (List.singleton_inj.mp same.2).symm other
      · rw [List.concat_eq_append, ← List.cons_append, ← List.append_assoc] at inside
        obtain ⟨rfl, same⟩ := List.append_inj' inside rfl
        obtain rfl := List.singleton_inj.mp same
        exact ⟨m, mark, List.concat_eq_append, quote, fun member => without (by simp [member])⟩

/-- A tag that is cut off at a bracket is cut off in a value. Behind the quotation mark that closes the value there is
no letter. -/
def CutOff (m : Text) : Prop :=
  ∃ content mark c rest, m = content ++ mark :: c :: rest ∧ (mark = '"' ∨ mark = '\'') ∧ mark ∉ content ∧
    c.isAlpha = false

theorem not_isAlpha_of_isGap {c : Char} (gap : isGap c = true) : c.isAlpha = false := by
  simp only [isGap, Bool.or_eq_true, decide_eq_true_eq] at gap
  rcases gap with ((rfl | rfl) | rfl) | rfl <;> decide

theorem WrittenTag.Legible.ending_eq {tag : WrittenTag} (legible : tag.Legible) :
    ∃ first, tag.ending = first ++ ['>'] ∧ '>' ∉ first ∧ ∀ c ∈ tag.ending, c.isAlpha = false := by
  refine ⟨tag.gap ++ (if tag.slash then ['/'] else []), rfl, ?_, ?_⟩
  · intro member
    rcases List.mem_append.mp member with blank | slash
    · exact not_bracket_of_isGap (legible.gap _ blank) rfl
    · split at slash <;> simp at slash
  · intro c member
    rcases List.mem_append.mp member with member | bracket
    · rcases List.mem_append.mp member with blank | slash
      · exact not_isAlpha_of_isGap (legible.gap _ blank)
      · split at slash
        · rw [List.mem_singleton.mp slash]
          decide
        · exact absurd slash List.not_mem_nil
    · rw [List.mem_singleton.mp bracket]
      decide

theorem cutOff_of_attributes {list : List WrittenAttribute} {first : Text} (legible : ∀ a ∈ list, a.Legible)
    (noBracket : '>' ∉ first) (noLetter : ∀ c ∈ first ++ ['>'], c.isAlpha = false) (some_rest : m ≠ [])
    (eq : list.flatMap WrittenAttribute.text ++ (first ++ ['>']) = t ++ '>' :: m) : CutOff m := by
  induction list generalizing t with
  | nil =>
    exact absurd (nothing_behind noBracket (show first ++ ['>'] = _ from eq)) some_rest
  | cons a list ih =>
    have later {t : Text} := @ih t fun b member => legible b (List.mem_cons_of_mem _ member)
    have here := legible a List.mem_cons_self
    -- what comes behind the attribute begins with a blank or with the end of the tag
    obtain ⟨c, rest, behind, other⟩ : ∃ c rest,
        list.flatMap WrittenAttribute.text ++ (first ++ ['>']) = c :: rest ∧ c.isAlpha = false := by
      cases list with
      | nil =>
        obtain ⟨c, rest, eq⟩ := List.exists_cons_of_ne_nil (show first ++ ['>'] ≠ [] by simp)
        exact ⟨c, rest, eq, noLetter c (by rw [eq]; exact List.mem_cons_self)⟩
      | cons next list =>
        have own := legible next (List.mem_cons_of_mem _ List.mem_cons_self)
        obtain ⟨c, gap, eq⟩ := List.exists_cons_of_ne_nil own.some_gap
        refine ⟨c, _, by rw [List.flatMap_cons, WrittenAttribute.text, eq]; rfl, ?_⟩
        exact not_isAlpha_of_isGap (own.gap c (by rw [eq]; exact List.mem_cons_self))
    rw [List.flatMap_cons, List.append_assoc] at eq
    rcases List.append_eq_append_iff.mp eq with ⟨more, rfl, split⟩ | ⟨more, whole, split⟩
    · exact later split
    · cases more with
      | nil => exact @later [] split.symm
      | cons d more =>
        obtain ⟨rfl, rfl⟩ := List.cons.inj split
        obtain ⟨content, mark, rfl, quote, without⟩ := here.cut whole
        exact ⟨content, mark, c, rest, by simp [behind], quote, without, other⟩

theorem bracket_not_mem_name {name : Text}
    (legible : ∃ c rest, name = c :: rest ∧ c.isAlpha = true ∧ ∀ d ∈ rest, isTagNameChar d = true) : '>' ∉ name := by
  obtain ⟨c, rest, rfl, letter, inside⟩ := legible
  intro member
  rcases List.mem_cons.mp member with rfl | member
  · exact absurd letter (by decide)
  · exact absurd (inside _ member) (by rw [(Scan.IsTagMark.outside (.inr rfl)).2.2.2]; exact Bool.false_ne_true)

/-- A start tag that has a bracket in front of the one at its end. -/
theorem WrittenTag.Legible.cutOff {tag : WrittenTag} (legible : tag.Legible) (some_rest : m ≠ [])
    (eq : tag.text = t ++ '>' :: m) : CutOff m := by
  obtain ⟨first, ending, noBracket, noLetter⟩ := legible.ending_eq
  have noName : '>' ∉ '<' :: tag.name := List.not_mem_cons_of_ne_of_not_mem (by decide) (bracket_not_mem_name legible.name)
  rw [tag.text_eq, List.append_assoc] at eq
  obtain ⟨_, _, behind⟩ := split_behind noName (show ('<' :: tag.name) ++ _ = _ from eq)
  rw [ending] at behind noLetter
  exact cutOff_of_attributes legible.attributes noBracket noLetter some_rest behind

/-- No end tag has a bracket in it but the one at its end. -/
theorem Token.Legible.whole_endTag {name gap : Text} (legible : (Token.endTag name gap).Legible)
    (eq : (Token.endTag name gap).text = t ++ '>' :: m) : m = [] := by
  have noBracket : '>' ∉ '<' :: '/' :: name ++ gap := by
    simp only [List.cons_append, List.mem_cons, List.mem_append, not_or]
    exact ⟨by decide, by decide, bracket_not_mem_name legible.1, fun member => not_bracket_of_isGap (legible.2 _ member) rfl⟩
  exact nothing_behind noBracket eq

end

namespace Scan

variable {t rest : Text} {token : Token}

theorem construct?_extend {opening closing : Text} {wrap : Text → Token} (more : Text) (some_rest : rest ≠ [])
    (h : construct? opening closing wrap t = some (token, rest)) :
    construct? opening closing wrap (t ++ more) = some (token, rest ++ more) := by
  obtain ⟨inner, opened, eq⟩ := Option.map_eq_some_iff.mp h
  rw [construct?, Text.after?_extend more opened, Option.map_some]
  unfold through at eq
  split at eq
  · next before after cut =>
    obtain ⟨rfl, rfl⟩ := Prod.mk.inj eq
    simp only [through, Text.cut?_extend more cut]
  · exact absurd (Prod.mk.inj eq).2.symm some_rest

theorem construct?_extend_eq_none {opening closing : Text} {wrap : Text → Token} (more : Text)
    (ends : '>' ∈ t) (other : '>' ∉ opening) (h : construct? opening closing wrap t = none) :
    construct? opening closing wrap (t ++ more) = none := by
  rw [construct?, Option.map_eq_none_iff] at h ⊢
  exact Text.after?_append_eq_none more h fun part => other (part.subset ends)

theorem endTag?_extend (more : Text) (h : endTag? t = some (token, rest)) :
    endTag? (t ++ more) = some (token, rest ++ more) := by
  have legible := endTag?_legible h
  have spelled := endTag?_spells h
  obtain ⟨name, gap, rfl⟩ := endTag?_form h
  rw [spelled, List.append_assoc]
  exact endTag?_text legible _

theorem startTag?_extend {tag : WrittenTag} (more : Text) (h : startTag? t = some (tag, rest)) :
    startTag? (t ++ more) = some (tag, rest ++ more) := by
  rw [startTag?_spells h, List.append_assoc]
  exact startTag?_text (startTag?_legible h) _

theorem endTag?_extend_eq_none (more : Text) (ends : ∃ front, t = front ++ ['>']) (h : endTag? t = none) :
    endTag? (t ++ more) = none := by
  rw [Option.eq_none_iff_forall_ne_some]
  rintro ⟨token, rest⟩ read
  have legible := endTag?_legible read
  have spelled := endTag?_spells read
  obtain ⟨name, gap, rfl⟩ := endTag?_form read
  have whole (after : Text) : t ≠ (Token.endTag name gap).text ++ after := by
    rintro rfl
    rw [endTag?_text legible] at h
    exact absurd h nofun
  rcases List.append_eq_append_iff.mp spelled with ⟨cut, eq, _⟩ | ⟨after, eq, _⟩
  · obtain ⟨front, rfl⟩ := ends
    rw [List.append_assoc] at eq
    obtain rfl := legible.whole_endTag eq
    exact whole [] (by rw [eq, List.append_nil]; rfl)
  · exact whole after eq

/-- What follows cannot make a start tag of a bracket that begins none. -/
theorem startTag?_extend_eq_none {more : Text} (inert : more.Inert) (ends : ∃ front, t = front ++ ['>'])
    (h : startTag? t = none) : startTag? (t ++ more) = none := by
  rw [Option.eq_none_iff_forall_ne_some]
  rintro ⟨tag, rest⟩ read
  have legible := startTag?_legible read
  have whole (after : Text) : t ≠ tag.text ++ after := by
    rintro rfl
    rw [startTag?_text legible] at h
    exact absurd h nofun
  rcases List.append_eq_append_iff.mp (startTag?_spells read) with ⟨cut, eq, behind⟩ | ⟨after, eq, _⟩
  · obtain ⟨front, rfl⟩ := ends
    by_cases none : cut = []
    · subst none
      exact whole [] (by rw [eq, List.append_nil, List.append_nil])
    · rw [List.append_assoc] at eq
      obtain ⟨content, mark, c, others, rfl, quote, without, other⟩ := legible.cutOff none eq
      obtain ⟨d, rest', same, letter⟩ := inert content mark (c :: others ++ rest)
        (by rw [behind, List.append_assoc]; rfl) quote without
      obtain ⟨rfl, _⟩ := List.cons.inj same
      exact absurd (letter.symm.trans other) Bool.noConfusion
  · exact whole after eq

theorem bracket_mem_of_rawContent {name taken : Text} (some_rest : rest ≠ []) (h : rawContent name t = (taken, rest)) :
    '>' ∈ t := by
  induction t generalizing taken with
  | nil => exact absurd (Prod.mk.inj h).2.symm some_rest
  | cons c t ih =>
    rw [rawContent] at h
    split at h
    · unfold through at h
      split at h
      · next before after cut =>
        rw [Text.eq_append_of_cut? cut]
        simp
      · exact absurd (Prod.mk.inj h).2.symm some_rest
    · obtain ⟨_, last⟩ := Prod.mk.inj h
      exact List.mem_cons_of_mem c (ih (Prod.ext rfl last))

/-- Content that is closed ends in the same place when more text follows. -/
theorem rawContent_extend {name taken : Text} (more : Text) (noBracket : '>' ∉ name)
    (h : rawContent name t = (taken, rest)) (ended : rest = [] → EndsRaw name taken) :
    rawContent name (t ++ more) = (taken, rest ++ more) := by
  induction t generalizing taken with
  | nil =>
    obtain ⟨rfl, rfl⟩ := Prod.mk.inj h
    obtain ⟨text, tail, eq, _⟩ := ended rfl
    simp at eq
  | cons c t ih =>
    have closes : '>' ∈ c :: t := by
      by_cases none : rest = []
      · obtain ⟨text, tail, eq, _⟩ := ended none
        have spelled := rawContent_spells name (c :: t)
        rw [h, none, List.append_nil] at spelled
        rw [← spelled, eq]
        simp
      · exact bracket_mem_of_rawContent none h
    rw [rawContent] at h
    rw [List.cons_append, rawContent, ← List.cons_append, lower_append]
    split at h
    · next after found =>
      rw [Text.after?_extend _ found]
      unfold through at h
      split at h
      · next before after cut =>
        obtain ⟨rfl, rfl⟩ := Prod.mk.inj h
        simp only [through, Text.cut?_extend more cut]
      · next none =>
        exact absurd ((List.singleton_infix_iff _ _).mpr closes) (Text.not_infix_of_cut?_eq_none (by decide) none)
    · next missing =>
      obtain ⟨rfl, last⟩ := Prod.mk.inj h
      have apart : ¬ Text.lower (c :: t) <+: '<' :: '/' :: name := by
        intro part
        have among := part.subset (List.mem_map.mpr ⟨'>', closes, rfl⟩)
        simp [noBracket] at among
      have ended' : rest = [] → EndsRaw name (rawContent name t).1 := by
        intro none
        obtain ⟨text, tail, eq, within⟩ := ended none
        cases text with
        | nil =>
          -- the end tag would have been found here
          obtain ⟨more', within⟩ := within
          have spelled : c :: t = '<' :: '/' :: (tail ++ ['>']) ++ rest := by
            rw [← rawContent_spells name t, last, ← List.cons_append, eq]
            rfl
          have lowered : Text.lower (c :: t) = '<' :: '/' :: name ++ (more' ++ Text.lower (['>'] ++ rest)) := by
            have inner : Text.lower (tail ++ (['>'] ++ rest)) = name ++ (more' ++ Text.lower (['>'] ++ rest)) := by
              rw [lower_append, ← within, List.append_assoc]
            rw [spelled, List.cons_append, List.cons_append, List.append_assoc]
            exact congrArg (fun lowered => '<' :: '/' :: lowered) inner
          rw [lowered, Text.after?_append] at missing
          cases missing
        | cons d text => exact ⟨text, tail, (List.cons.inj eq).2, within⟩
      rw [Text.after?_append_eq_none _ missing apart]
      simp only [ih (Prod.ext rfl last) ended']

theorem element?_extend (more : Text) (ended : rest = [] → token.Ended) (h : element? t = some (token, rest)) :
    element? (t ++ more) = some (token, rest ++ more) := by
  obtain ⟨⟨tag, after⟩, found, eq⟩ := Option.map_eq_some_iff.mp h
  rw [element?, startTag?_extend more found, Option.map_some]
  cases opens : tag.opensRawText with
  | true =>
    simp only [opens, if_true] at eq ⊢
    obtain ⟨rfl, rfl⟩ := Prod.mk.inj eq
    rw [rawContent_extend more (bracket_not_mem_lower opens) rfl ended]
  | false =>
    simp only [opens, Bool.false_eq_true, if_false] at eq ⊢
    obtain ⟨rfl, rfl⟩ := Prod.mk.inj eq
    rfl

theorem plain?_extend (more : Text) (some_rest : rest ≠ []) (h : plain? t = some (token, rest)) :
    plain? (t ++ more) = some (token, rest ++ more) := by
  cases t with
  | nil => exact absurd h nofun
  | cons c t =>
    rw [plain?] at h
    obtain ⟨rfl, rfl⟩ := Prod.mk.inj (Option.some.inj h)
    obtain ⟨d, after, dropped⟩ := List.exists_cons_of_ne_nil some_rest
    have read : run (· != '<') t = (t.takeWhile (· != '<'), d :: after) := by rw [run, dropped]
    have further := @run_append _ _ (d :: after ++ more) (run_inside read) (stops_cons (run_stops read d after rfl))
    rw [← List.append_assoc, ← dropped, List.takeWhile_append_dropWhile] at further
    obtain ⟨taken, left⟩ := Prod.mk.inj further
    rw [List.cons_append, plain?, taken, left]

/-- A piece reads as before when more text follows, if it ends by itself or is not the last one. -/
theorem token?_extend {more : Text} (inert : more.Inert) (ends : ∃ front, t = front ++ ['>'])
    (ended : rest = [] → token.Ended) (h : token? t = some (token, rest)) :
    token? (t ++ more) = some (token, rest ++ more) := by
  have bracket : '>' ∈ t := by
    obtain ⟨front, rfl⟩ := ends
    simp
  have whole {text : Text} (eq : token = .comment text ∨ token = .plain text) : rest ≠ [] := by
    intro none
    have own := ended none
    rcases eq with rfl | rfl <;> exact own
  have construct {opening closing : Text} {wrap : Text → Token} (kind : ∀ text, wrap text = .comment text ∨ wrap text = .plain text)
      (h : construct? opening closing wrap t = some (token, rest)) :
      construct? opening closing wrap (t ++ more) = some (token, rest ++ more) := by
    obtain ⟨inner, _, eq⟩ := Option.map_eq_some_iff.mp h
    exact construct?_extend more (whole ((Prod.mk.inj eq).1 ▸ kind _)) h
  simp only [token?, Option.orElse_eq_orElse, Option.orElse_eq_or, Option.or_eq_some_iff] at h ⊢
  rcases h with h | ⟨noComment, h⟩
  · exact .inl (construct (fun _ => .inl rfl) h)
  refine .inr ⟨construct?_extend_eq_none more bracket (by decide) noComment, ?_⟩
  rcases h with h | ⟨noData, h⟩
  · exact .inl (construct (fun _ => .inr rfl) h)
  refine .inr ⟨construct?_extend_eq_none more bracket (by decide) noData, ?_⟩
  rcases h with h | ⟨noDeclaration, h⟩
  · exact .inl (construct (fun _ => .inr rfl) h)
  refine .inr ⟨construct?_extend_eq_none more bracket (by decide) noDeclaration, ?_⟩
  rcases h with h | ⟨noInstruction, h⟩
  · exact .inl (construct (fun _ => .inr rfl) h)
  refine .inr ⟨construct?_extend_eq_none more bracket (by decide) noInstruction, ?_⟩
  rcases h with h | ⟨noEndTag, h⟩
  · exact .inl (endTag?_extend more h)
  refine .inr ⟨endTag?_extend_eq_none more ends noEndTag, ?_⟩
  rcases h with h | ⟨noElement, h⟩
  · exact .inl (element?_extend more ended h)
  have noTag : startTag? t = none := Option.map_eq_none_iff.mp noElement
  refine .inr ⟨by rw [element?, startTag?_extend_eq_none inert ends noTag]; rfl, ?_⟩
  cases t with
  | nil => cases h
  | cons c t => exact plain?_extend more (whole (.inr (Prod.mk.inj (Option.some.inj h)).1.symm)) h

theorem ends_of_ended {token : Token} (ended : token.Ended) : ∃ front, token.text = front ++ ['>'] := by
  cases token with
  | startTag tag => exact ⟨_, rfl⟩
  | endTag name gap => exact ⟨_, rfl⟩
  | rawElement tag content =>
    obtain ⟨text, tail, eq, _⟩ := ended
    exact ⟨tag.text ++ text ++ '<' :: '/' :: tail, by simp [Token.text, eq]⟩
  | _ => exact ended.elim

/-- The pieces of a text whose last piece ends by itself are followed by the pieces of what follows the text. -/
theorem tokens_extend {more : Text} (inert : more.Inert) {first : List Token} {last : Token} (ended : last.Ended)
    (h : tokens t = first ++ [last]) : tokens (t ++ more) = tokens t ++ tokens more := by
  have ends : ∃ front, t = front ++ ['>'] := by
    obtain ⟨front, eq⟩ := ends_of_ended ended
    refine ⟨spelling first ++ front, ?_⟩
    rw [← tokens_spells t, h, List.append_assoc, ← eq]
    exact (spelling_append first [last]).trans (by rw [spelling_cons, spelling_nil, List.append_nil])
  induction first generalizing t with
  | nil =>
    have found := token?_of_tokens h
    rw [h, tokens_of_some (token?_extend inert ends (fun _ => ended) found)]
    rfl
  | cons token first ih =>
    have found := token?_of_tokens h
    have some_rest : spelling (first ++ [last]) ≠ [] := by
      obtain ⟨front, eq⟩ := ends_of_ended ended
      simp [spelling_append, spelling_cons, eq]
    have ends' : ∃ front, spelling (first ++ [last]) = front ++ ['>'] := by
      obtain ⟨front, eq⟩ := ends_of_ended ended
      exact ⟨spelling first ++ front, by simp [spelling_append, spelling_cons, spelling_nil, eq]⟩
    have below := tokens_after (show tokens t = [token] ++ (first ++ [last]) from h)
    rw [h, tokens_of_some (token?_extend inert ends (fun none => absurd none some_rest) found), ih below ends', below]
    rfl

end Scan

end MarkupTemplates
