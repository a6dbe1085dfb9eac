import MarkupTemplates.Proofs.Markup.Cutting
import MarkupTemplates.Proofs.Markup.Relocation
import MarkupTemplates.Proofs.Text.Bytes

namespace MarkupTemplates

/-- The attribute after more blanks. -/
def WrittenAttribute.indented (blanks : Text) (a : WrittenAttribute) : WrittenAttribute :=
  { a with gap := blanks ++ a.gap }

/-- The tag with these attributes in place of its own. The blanks come in front of what follows the
first ones. -/
def WrittenTag.without (tag : WrittenTag) (before : List WrittenAttribute) (blanks : Text) :
    List WrittenAttribute → WrittenTag
  | [] => { tag with attributes := before, gap := blanks ++ tag.gap }
  | next :: after => { tag with attributes := before ++ next.indented blanks :: after }

/-- The tag from behind its attributes on. -/
def WrittenTag.ending (tag : WrittenTag) : Text := tag.gap ++ (if tag.slash then ['/'] else []) ++ ['>']

variable {tag : WrittenTag} {before after : List WrittenAttribute} {own : WrittenAttribute} {blanks : Text}

theorem WrittenTag.text_eq (tag : WrittenTag) :
    tag.text = '<' :: tag.name ++ tag.attributes.flatMap WrittenAttribute.text ++ tag.ending := by
  simp only [WrittenTag.text, WrittenTag.ending, List.append_assoc]

theorem WrittenAttribute.text_indented (blanks : Text) (a : WrittenAttribute) :
    (a.indented blanks).text = blanks ++ a.text := by
  simp only [WrittenAttribute.text, WrittenAttribute.indented, List.append_assoc]

theorem WrittenTag.text_without (tag : WrittenTag) (before : List WrittenAttribute) (blanks : Text)
    (after : List WrittenAttribute) : (tag.without before blanks after).text =
      '<' :: tag.name ++ before.flatMap WrittenAttribute.text ++ blanks ++
        (after.flatMap WrittenAttribute.text ++ tag.ending) := by
  cases after with
  | nil =>
    simp only [WrittenTag.text, WrittenTag.without, WrittenTag.ending, List.cons_append, List.append_assoc,
      List.flatMap_nil, List.nil_append]
    rfl
  | cons next after =>
    simp only [WrittenTag.text, WrittenTag.without, WrittenTag.ending, List.cons_append, List.append_assoc,
      List.flatMap_append, List.flatMap_cons, WrittenAttribute.text_indented]
    rfl

theorem WrittenTag.without_name (tag : WrittenTag) (before : List WrittenAttribute) (blanks : Text)
    (after : List WrittenAttribute) : (tag.without before blanks after).name = tag.name := by
  cases after <;> rfl

theorem WrittenTag.without_slash (tag : WrittenTag) (before : List WrittenAttribute) (blanks : Text)
    (after : List WrittenAttribute) : (tag.without before blanks after).slash = tag.slash := by
  cases after <;> rfl

theorem WrittenAttribute.Legible.indented {a : WrittenAttribute} (legible : a.Legible)
    (blank : ∀ c ∈ blanks, isGap c = true) : (a.indented blanks).Legible where
  some_gap := fun none => legible.some_gap (List.append_eq_nil_iff.mp none).2
  gap c member := (List.mem_append.mp member).elim (blank c) (legible.gap c)
  some_name := legible.some_name
  name := legible.name
  assignment := legible.assignment

/-- Where a slash does not come to stand right behind a value without quotation marks, a tag is legible
without one of its attributes, too. -/
theorem WrittenTag.Legible.without (legible : tag.Legible) (split : tag.attributes = before ++ own :: after)
    (blank : ∀ c ∈ blanks, isGap c = true)
    (apart : tag.slash = true → tag.gap = [] → after = [] → blanks = [] →
      ∀ a, before.getLast? = some a → a.isUnquoted = false) :
    (tag.without before blanks after).Legible := by
  have attributes := legible.attributes
  rw [split] at attributes
  cases after with
  | nil =>
    refine ⟨legible.name, fun a member => attributes a (List.mem_append_left _ member), ?_, ?_⟩
    · exact fun c member => (List.mem_append.mp member).elim (blank c) (legible.gap c)
    · intro slash none
      obtain ⟨noBlanks, noGap⟩ := List.append_eq_nil_iff.mp none
      exact apart slash noGap rfl noBlanks
  | cons next after =>
    have here := attributes next (by simp)
    refine ⟨legible.name, fun a member => ?_, legible.gap, ?_⟩
    · rcases List.mem_append.mp member with member | member
      · exact attributes a (List.mem_append_left _ member)
      · rcases List.mem_cons.mp member with rfl | member
        · exact here.indented blank
        · exact attributes a (by simp [member])
    · intro slash noGap a last
      have known := legible.apart slash noGap
      rw [split] at known
      cases after with
      | nil =>
        have last : (before ++ [next.indented blanks]).getLast? = some a := last
        rw [List.getLast?_append, List.getLast?_singleton, Option.some_or] at last
        rw [← Option.some.inj last]
        exact known next (by simp)
      | cons second after =>
        refine known a ?_
        have last : (before ++ next.indented blanks :: second :: after).getLast? = some a := last
        simpa using last

/-- Where a byte comes to stand in what begins at `start` and leaves out the bytes from `lo` to `hi`. -/
def afterCut (start lo hi p : Nat) : Nat := if hi ≤ p then p - (hi - lo) - start else p - start

theorem afterCut_of_lt {start lo hi n : Nat} (before : start + n < hi) :
    afterCut start lo hi (start + n) = n := by
  rw [afterCut, if_neg (by omega)]
  omega

theorem afterCut_of_le {start lo hi : Nat} (n : Nat) (inside : start ≤ lo) (forward : lo ≤ hi) :
    afterCut start lo hi (hi + n) = lo - start + n := by
  rw [afterCut, if_pos (by omega)]
  omega

/-- The length of attributes in a row. -/
def sizeInRow (list : List WrittenAttribute) : Nat := Text.byteSize (list.flatMap WrittenAttribute.text)

theorem sizeInRow_cons (a : WrittenAttribute) (list : List WrittenAttribute) :
    sizeInRow (a :: list) = a.text.byteSize + sizeInRow list := Text.byteSize_append ..

theorem sizeInRow_append (first second : List WrittenAttribute) :
    sizeInRow (first ++ second) = sizeInRow first + sizeInRow second := by
  rw [sizeInRow, List.flatMap_append, Text.byteSize_append]
  rfl

theorem sizeInRow_concat (list : List WrittenAttribute) (last : WrittenAttribute) :
    sizeInRow (list ++ [last]) = sizeInRow list + last.text.byteSize := by
  rw [sizeInRow_append, sizeInRow_cons]
  rfl

theorem locatedInRow_append (start : Nat) (first second : List WrittenAttribute) :
    locatedInRow start (first ++ second) =
      locatedInRow start first ++ locatedInRow (start + sizeInRow first) second := by
  induction first generalizing start with
  | nil => rfl
  | cons a first ih =>
    rw [List.cons_append, locatedInRow, ih, locatedInRow, List.cons_append, sizeInRow_cons, Nat.add_assoc]

theorem locatedInRow_eq_append {start : Nat} {list : List WrittenAttribute} {first second : List Attribute}
    (eq : locatedInRow start list = first ++ second) : ∃ before after, list = before ++ after ∧
      locatedInRow start before = first ∧ locatedInRow (start + sizeInRow before) after = second := by
  induction first generalizing start list with
  | nil => exact ⟨[], list, rfl, rfl, eq⟩
  | cons a first ih =>
    cases list with
    | nil => simp [locatedInRow] at eq
    | cons own list =>
      obtain ⟨rfl, rest⟩ := List.cons.inj eq
      obtain ⟨before, after, rfl, rfl, rfl⟩ := ih rest
      exact ⟨own :: before, after, rfl, rfl, by rw [sizeInRow_cons, Nat.add_assoc]⟩

/-- An attribute that has been read was written somewhere in its tag. -/
theorem mem_locatedInRow {a : Attribute} {start : Nat} {list : List WrittenAttribute}
    (member : a ∈ locatedInRow start list) : ∃ before own after, list = before ++ own :: after ∧
      a = own.located (start + sizeInRow before) := by
  obtain ⟨first, second, split⟩ := List.append_of_mem member
  obtain ⟨before, after, rfl, _, here⟩ := locatedInRow_eq_append split
  cases after with
  | nil => simp [locatedInRow] at here
  | cons own after => exact ⟨before, own, after, rfl, (List.cons.inj here).1.symm⟩

theorem span_start_le_of_mem {a : Attribute} {start : Nat} {list : List WrittenAttribute}
    (member : a ∈ locatedInRow start list) : a.span.start ≤ start + sizeInRow list := by
  obtain ⟨before, own, after, rfl, rfl⟩ := mem_locatedInRow member
  simp only [WrittenAttribute.located, WrittenAttribute.text, sizeInRow, List.flatMap_append,
    List.flatMap_cons, Text.byteSize_append]
  omega

theorem erase_located (start : Nat) (before after : List WrittenAttribute) (some_gap : own.gap ≠ []) :
    (locatedInRow start (before ++ own :: after)).erase (own.located (start + sizeInRow before)) =
      locatedInRow start before ++ locatedInRow (start + sizeInRow before + own.text.byteSize) after := by
  have positive := Text.byteSize_pos some_gap
  have other : own.located (start + sizeInRow before) ∉ locatedInRow start before := by
    intro member
    have le := span_start_le_of_mem member
    simp only [WrittenAttribute.located] at le
    omega
  rw [locatedInRow_append, List.erase_append_right _ other, locatedInRow, List.erase_cons_head]

theorem WrittenAttribute.located_indented (start : Nat) (blanks : Text) (a : WrittenAttribute) :
    (a.indented blanks).located start = a.located (start + blanks.byteSize) := by
  simp only [located, text_indented, Text.byteSize_append, ← Nat.add_assoc]
  simp only [indented, Text.byteSize_append, ← Nat.add_assoc]

theorem size_of_gap {blank : Char} (gap : own.gap = blanks ++ [blank]) (one : blank.utf8Size = 1) :
    ∃ rest, own.text = blanks ++ blank :: rest ∧
      own.text.byteSize = blanks.byteSize + 1 + Text.byteSize rest ∧
      Text.byteSize own.gap = blanks.byteSize + 1 := by
  obtain ⟨rest, spelled⟩ : ∃ rest, own.text = blanks ++ blank :: rest :=
    ⟨_, by rw [WrittenAttribute.text, gap, List.append_assoc, List.append_assoc, List.singleton_append]⟩
  refine ⟨rest, spelled, ?_, ?_⟩
  · rw [spelled, Text.byteSize_append, Text.byteSize_cons, one, Nat.add_assoc]
  · rw [gap, Text.byteSize_append, Text.byteSize_cons, one]
    rfl

theorem WrittenTag.byteSize_text (tag : WrittenTag) : tag.text.byteSize =
    1 + Text.byteSize tag.name + sizeInRow tag.attributes + tag.ending.byteSize := by
  rw [text_eq, Text.byteSize_append, Text.byteSize_append]
  rfl

theorem WrittenTag.byteSize_text_without (tag : WrittenTag) (before : List WrittenAttribute) (blanks : Text)
    (after : List WrittenAttribute) : (tag.without before blanks after).text.byteSize =
      1 + Text.byteSize tag.name + sizeInRow before + blanks.byteSize +
        (sizeInRow after + tag.ending.byteSize) := by
  rw [text_without, Text.byteSize_append, Text.byteSize_append, Text.byteSize_append, Text.byteSize_append]
  rfl

theorem locatedInRow_without (start : Nat) :
    locatedInRow start (tag.without before blanks after).attributes =
      locatedInRow start before ++ locatedInRow (start + sizeInRow before + blanks.byteSize) after := by
  cases after with
  | nil => rw [WrittenTag.without, locatedInRow, List.append_nil]
  | cons next after =>
    have size : (next.indented blanks).text.byteSize = blanks.byteSize + next.text.byteSize := by
      rw [WrittenAttribute.text_indented, Text.byteSize_append]
    rw [WrittenTag.without, locatedInRow_append, locatedInRow, locatedInRow,
      WrittenAttribute.located_indented, size, ← Nat.add_assoc]

theorem located_span (position : Nat) {blank : Char} (gap : own.gap = blanks ++ [blank])
    (one : blank.utf8Size = 1) : (own.located position).span.start = position + blanks.byteSize + 1 ∧
      (own.located position).span.stop = position + own.text.byteSize := by
  obtain ⟨_, _, _, gap_size⟩ := size_of_gap gap one
  exact ⟨by simp only [WrittenAttribute.located, gap_size, Nat.add_assoc], rfl⟩

/-- What stands behind the tag moves as the end of the tag does. -/
theorem moves_afterCut (start : Nat) {blank : Char} (split : tag.attributes = before ++ own :: after)
    (gap : own.gap = blanks ++ [blank]) (one : blank.utf8Size = 1) :
    let a := own.located (start + 1 + Text.byteSize tag.name + sizeInRow before)
    Moves (afterCut start (a.span.start - 1) a.span.stop) (start + tag.text.byteSize)
      (tag.without before blanks after).text.byteSize := by
  intro a n
  obtain ⟨rest, _, size, _⟩ := size_of_gap gap one
  obtain ⟨lo, hi⟩ : a.span.start = _ ∧ a.span.stop = _ := located_span _ gap one
  have behind : start + tag.text.byteSize + n =
      a.span.stop + (sizeInRow after + tag.ending.byteSize + n) := by
    rw [hi, WrittenTag.byteSize_text, split, sizeInRow_append, sizeInRow_cons]
    omega
  rw [behind, afterCut_of_le _ (by omega) (by omega), WrittenTag.byteSize_text_without]
  omega

/-- The other attributes, where they stand without this one. -/
theorem WrittenTag.attributes_without (start : Nat) {blank : Char}
    (split : tag.attributes = before ++ own :: after) (gap : own.gap = blanks ++ [blank])
    (one : blank.utf8Size = 1) :
    let a := own.located (start + 1 + Text.byteSize tag.name + sizeInRow before)
    ((tag.located start).attributes.erase a).map (Attribute.relocated
        (afterCut start (a.span.start - 1) a.span.stop)) =
      ((tag.without before blanks after).located 0).attributes := by
  intro a
  obtain ⟨rest, _, size, _⟩ := size_of_gap gap one
  obtain ⟨lo, hi⟩ : a.span.start = _ ∧ a.span.stop = _ := located_span _ gap one
  have some_gap : own.gap ≠ [] := by simp [gap]
  have erased := erase_located (start + 1 + Text.byteSize tag.name) before after some_gap
  rw [← split] at erased
  rw [show (tag.located start).attributes.erase a = _ from erased, List.map_append,
    show ((tag.without before blanks after).located 0).attributes = _ from locatedInRow_without _,
    locatedInRow_relocated before, locatedInRow_relocated after]
  · intro n _
    rw [← hi, afterCut_of_le n (by omega) (by omega), without_name]
    omega
  · intro n less
    have inside : n ≤ sizeInRow before := less
    rw [Nat.add_assoc, Nat.add_assoc, afterCut_of_lt (by omega), without_name]
    omega

/-- The tag without the attribute, read from its first byte on. -/
theorem WrittenTag.located_without (start : Nat) {blank : Char}
    (split : tag.attributes = before ++ own :: after) (gap : own.gap = blanks ++ [blank])
    (one : blank.utf8Size = 1) :
    let a := own.located (start + 1 + Text.byteSize tag.name + sizeInRow before)
    ({ tag.located start with attributes := (tag.located start).attributes.erase a } : Tag).relocated
        (afterCut start (a.span.start - 1) a.span.stop) = (tag.without before blanks after).located 0 := by
  intro a
  obtain ⟨lo, hi⟩ : a.span.start = _ ∧ a.span.stop = _ := located_span _ gap one
  have attributes := attributes_without start split gap one
  have first : afterCut start (a.span.start - 1) a.span.stop (start + 0) = 0 := afterCut_of_lt (by
    obtain ⟨_, _, size, _⟩ := size_of_gap gap one
    omega)
  have last := (moves_afterCut start split gap one).start
  simp only [Tag.relocated, Span.relocated]
  rw [show ((tag.located start).attributes.erase a).map _ = _ from attributes]
  simp only [located, without_name, Tag.mk.injEq, true_and, Span.mk.injEq]
  exact ⟨first, last.trans (Nat.zero_add _).symm⟩

theorem WrittenTag.Legible.text_start (legible : tag.Legible) :
    ∃ c rest, tag.text = '<' :: c :: rest ∧ c.isAlpha = true := by
  obtain ⟨c, more, name, letter, _⟩ := legible.name
  refine ⟨c, more ++ tag.attributes.flatMap WrittenAttribute.text ++ tag.ending, ?_, letter⟩
  rw [WrittenTag.text_eq, name]
  rfl

namespace Scan

theorem construct?_eq_none {c d : Char} {opening closing rest : Text} {wrap : Text → Token}
    (other : c ≠ d) : construct? ('<' :: d :: opening) closing wrap ('<' :: c :: rest) = none := by
  rw [construct?, Option.map_eq_none_iff, Text.after?, if_pos rfl, Text.after?, if_neg (Ne.symm other)]

/-- What begins like a start tag is no other construct. -/
theorem token?_startTag (legible : tag.Legible) (rest : Text) :
    token? (tag.text ++ rest) = element? (tag.text ++ rest) := by
  obtain ⟨c, more, spelled, letter⟩ := legible.text_start
  have noMark : c ≠ '!' ∧ c ≠ '?' ∧ c ≠ '/' := by
    refine ⟨?_, ?_, ?_⟩ <;> rintro rfl <;> exact absurd letter (by decide)
  have noEndTag : endTag? ('<' :: c :: (more ++ rest)) = none := by
    rw [endTag?, Text.after?, if_pos rfl, Text.after?, if_neg (Ne.symm noMark.2.2)]
    rfl
  have found : (element? (tag.text ++ rest)).isSome = true := by
    rw [element?, startTag?_text legible rest]
    rfl
  obtain ⟨read, eq⟩ := Option.isSome_iff_exists.mp found
  rw [eq]
  rw [spelled] at eq ⊢
  simp only [token?, Option.orElse_eq_orElse, Option.orElse_eq_or, Option.or_eq_some_iff]
  refine Or.inr ⟨construct?_eq_none noMark.1, Or.inr ⟨construct?_eq_none noMark.1, ?_⟩⟩
  refine Or.inr ⟨construct?_eq_none noMark.1, Or.inr ⟨construct?_eq_none noMark.2.1, ?_⟩⟩
  exact Or.inr ⟨noEndTag, Or.inl eq⟩

end Scan

end MarkupTemplates
