import MarkupTemplates.Markup.Scan

namespace MarkupTemplates

/-- A run of the class ends before the text. -/
def Stops (p : Char → Bool) (t : Text) : Prop := ∀ c rest, t = c :: rest → p c = false

theorem stops_cons {p : Char → Bool} {c : Char} {t : Text} (outside : p c = false) : Stops p (c :: t) := by
  intro d rest eq
  rw [← (List.cons.inj eq).1]
  exact outside

namespace Scan

theorem run_append {p : Char → Bool} {s t : Text} (inside : ∀ c ∈ s, p c = true) (stops : Stops p t) :
    run p (s ++ t) = (s, t) := by
  rw [run, List.takeWhile_append_of_pos inside, List.dropWhile_append_of_pos inside]
  cases t with
  | nil => rw [List.takeWhile_nil, List.dropWhile_nil, List.append_nil]
  | cons c t =>
    have outside := stops c t rfl
    simp only [List.takeWhile_cons, List.dropWhile_cons, outside, Bool.false_eq_true, if_false,
      List.append_nil]

theorem run_inside {p : Char → Bool} {t taken rest : Text} (h : run p t = (taken, rest)) :
    ∀ c ∈ taken, p c = true := by
  obtain ⟨rfl, _⟩ := Prod.mk.inj h
  exact fun c member => List.all_eq_true.mp List.all_takeWhile c member

theorem run_stops {p : Char → Bool} {t taken rest : Text} (h : run p t = (taken, rest)) : Stops p rest := by
  obtain ⟨_, rfl⟩ := Prod.mk.inj h
  intro c after eq
  have first := List.head?_dropWhile_not p t
  rw [eq] at first
  simpa using first

end Scan

def WrittenValue.Legible : WrittenValue → Prop
  | quoted mark content => (mark = '"' ∨ mark = '\'') ∧ mark ∉ content
  | bare content => content ≠ [] ∧ ∀ c ∈ content, isBareValueChar c = true

structure Assignment.Legible (a : Assignment) : Prop where
  before : ∀ c ∈ a.before, isGap c = true
  after : ∀ c ∈ a.after, isGap c = true
  value : a.value.Legible

structure WrittenAttribute.Legible (a : WrittenAttribute) : Prop where
  some_gap : a.gap ≠ []
  gap : ∀ c ∈ a.gap, isGap c = true
  some_name : a.name ≠ []
  name : ∀ c ∈ a.name, isAttributeNameChar c = true
  assignment : ∀ assignment, a.assignment = some assignment → assignment.Legible

/-- The value is written without quotation marks. -/
def WrittenAttribute.isUnquoted (a : WrittenAttribute) : Bool :=
  match a.assignment with
  | some ⟨_, _, .bare _⟩ => true
  | _ => false

/-- A start tag that reads as it is meant. A slash right after a value without quotation marks would
belong to the value. -/
structure WrittenTag.Legible (tag : WrittenTag) : Prop where
  name : ∃ c rest, tag.name = c :: rest ∧ c.isAlpha = true ∧ ∀ d ∈ rest, isTagNameChar d = true
  attributes : ∀ a ∈ tag.attributes, a.Legible
  gap : ∀ c ∈ tag.gap, isGap c = true
  apart : tag.slash = true → tag.gap = [] → ∀ a, tag.attributes.getLast? = some a → a.isUnquoted = false

/-- What is known of a piece that has been read. -/
def Token.Legible : Token → Prop
  | startTag tag => tag.Legible ∧ tag.opensRawText = false
  | rawElement tag _ => tag.Legible ∧ tag.opensRawText = true
  | endTag name gap =>
    (∃ c rest, name = c :: rest ∧ c.isAlpha = true ∧ ∀ d ∈ rest, isTagNameChar d = true) ∧
      ∀ c ∈ gap, isGap c = true
  | _ => True

/-- A blank belongs to no part of a tag. -/
theorem not_nameChar_of_isGap {c : Char} (gap : isGap c = true) :
    isAttributeNameChar c = false ∧ isBareValueChar c = false ∧ isTagNameChar c = false := by
  simp only [isGap, Bool.or_eq_true, decide_eq_true_eq] at gap
  rcases gap with ((rfl | rfl) | rfl) | rfl <;> decide

theorem not_isGap_of_nameChar {c : Char} (inside : isAttributeNameChar c = true) : isGap c = false := by
  rw [← Bool.not_eq_true]
  intro gap
  rw [(not_nameChar_of_isGap gap).1] at inside
  exact Bool.noConfusion inside

theorem not_isGap_of_bareValueChar {c : Char} (inside : isBareValueChar c = true) : isGap c = false := by
  rw [← Bool.not_eq_true]
  intro gap
  rw [(not_nameChar_of_isGap gap).2.1] at inside
  exact Bool.noConfusion inside

namespace Scan

theorem cutAt?_append {mark : Char} {content : Text} (rest : Text) (without : mark ∉ content) :
    Text.cutAt? mark (content ++ mark :: rest) = some (content, rest) := by
  have inside : ∀ c ∈ content, (c != mark) = true := by
    intro c member
    rw [bne_iff_ne]
    rintro rfl
    exact without member
  obtain ⟨taken, dropped⟩ := Prod.mk.inj (run_append (t := mark :: rest) inside
    (stops_cons (bne_self_eq_false mark)))
  rw [Text.cutAt?, taken, dropped]

theorem quoted?_append {mark : Char} {content : Text} (rest : Text) (without : mark ∉ content) :
    quoted? mark (content ++ mark :: rest) = some (.quoted mark content, rest) := by
  rw [quoted?, cutAt?_append rest without, Option.map_some]

theorem value?_text {value : WrittenValue} {rest : Text} (legible : value.Legible)
    (stops : ∀ content, value = .bare content → Stops isBareValueChar rest) :
    value? (value.text ++ rest) = some (value, rest) := by
  cases value with
  | quoted mark content =>
    obtain ⟨rfl | rfl, without⟩ := legible
    · simp only [WrittenValue.text, List.cons_append, List.append_assoc, List.nil_append, value?]
      exact quoted?_append rest without
    · simp only [WrittenValue.text, List.cons_append, List.append_assoc, List.nil_append, value?]
      exact quoted?_append rest without
  | bare content =>
    obtain ⟨some_content, inside⟩ := legible
    obtain ⟨c, more, rfl⟩ := List.exists_cons_of_ne_nil some_content
    have first := inside c List.mem_cons_self
    have noQuote : c ≠ '"' ∧ c ≠ '\'' := by
      constructor <;> rintro rfl <;> exact absurd first (by decide)
    have read := run_append inside (stops _ rfl)
    simp only [WrittenValue.text, List.cons_append] at read ⊢
    unfold value?
    split
    · next eq => exact absurd (List.cons.inj eq).1 noQuote.1
    · next eq => exact absurd (List.cons.inj eq).1 noQuote.2
    · rw [bare?, read]

theorem value_stops_isGap {value : WrittenValue} (legible : value.Legible) (rest : Text) :
    Stops isGap (value.text ++ rest) := by
  cases value with
  | quoted mark content =>
    obtain ⟨rfl | rfl, _⟩ := legible
    · exact stops_cons rfl
    · exact stops_cons rfl
  | bare content =>
    obtain ⟨some_content, inside⟩ := legible
    obtain ⟨c, more, rfl⟩ := List.exists_cons_of_ne_nil some_content
    exact stops_cons (not_isGap_of_bareValueChar (inside c List.mem_cons_self))

theorem assignment?_text {a : Assignment} {rest : Text} (legible : a.Legible)
    (stops : ∀ content, a.value = .bare content → Stops isBareValueChar rest) :
    assignment? (a.text ++ rest) = some (a, rest) := by
  have first : run isGap (a.text ++ rest) = (a.before, '=' :: (a.after ++ (a.value.text ++ rest))) := by
    have read := run_append (t := '=' :: (a.after ++ (a.value.text ++ rest))) legible.before
      (stops_cons rfl)
    simpa only [Assignment.text, List.append_assoc, List.cons_append] using read
  have second := run_append legible.after (value_stops_isGap legible.value rest)
  rw [assignment?, first]
  simp only [second, value?_text legible.value stops, Option.map_some]

/-- Without an equals sign after the blanks nothing is assigned. -/
theorem assignment?_eq_none {gap rest : Text} (blank : ∀ c ∈ gap, isGap c = true)
    (stops : Stops isGap rest) (noSign : ∀ after, rest ≠ '=' :: after) :
    assignment? (gap ++ rest) = none := by
  unfold assignment?
  rw [run_append blank stops]
  split
  · next eq => exact absurd (Prod.mk.inj eq).2 (noSign _)
  · rfl

/-- The text ends an attribute: the attribute reads the same in front of it. -/
structure Ends (a : WrittenAttribute) (rest : Text) : Prop where
  unquoted : a.isUnquoted = true → Stops isBareValueChar rest
  name : a.assignment = none → Stops isAttributeNameChar rest
  nothing : a.assignment = none → assignment? rest = none

theorem attribute?_text {a : WrittenAttribute} {rest : Text} (legible : a.Legible) (ends : Ends a rest) :
    attribute? (a.text ++ rest) = some (a, rest) := by
  obtain ⟨gap, name, assignment⟩ := a
  obtain ⟨d, moreName, rfl⟩ := List.exists_cons_of_ne_nil legible.some_name
  have nameFirst := not_isGap_of_nameChar (legible.name d List.mem_cons_self)
  obtain ⟨c, moreGap, rfl⟩ := List.exists_cons_of_ne_nil legible.some_gap
  cases assignment with
  | none =>
    have first := run_append (t := d :: moreName ++ rest) legible.gap (stops_cons nameFirst)
    have second := run_append legible.name (ends.name rfl)
    simp only [WrittenAttribute.text, List.append_nil, List.append_assoc]
    simp only [attribute?, first, second, ends.nothing rfl]
  | some assignment =>
    have stopsName : Stops isAttributeNameChar (assignment.text ++ rest) := by
      have blank := (legible.assignment assignment rfl).before
      obtain ⟨before, after, value⟩ := assignment
      cases before with
      | nil => exact stops_cons rfl
      | cons g before => exact stops_cons (not_nameChar_of_isGap (blank g List.mem_cons_self)).1
    have read := assignment?_text (legible.assignment assignment rfl) (by
      intro content eq
      refine ends.unquoted ?_
      obtain ⟨before, after, value⟩ := assignment
      subst eq
      rfl)
    have first := run_append (t := d :: moreName ++ (assignment.text ++ rest)) legible.gap
      (stops_cons nameFirst)
    have second := run_append legible.name stopsName
    simp only [WrittenAttribute.text, List.append_assoc]
    simp only [attribute?, first, second, read]

theorem ends_of_gap {a : WrittenAttribute} {gap rest : Text} {c : Char}
    (blank : ∀ d ∈ gap, isGap d = true) (notGap : isGap c = false) (noSign : c ≠ '=')
    (first : gap = [] → isAttributeNameChar c = false ∧ (a.isUnquoted = true → isBareValueChar c = false)) :
    Ends a (gap ++ c :: rest) := by
  have nothing : assignment? (gap ++ c :: rest) = none :=
    assignment?_eq_none blank (stops_cons notGap) fun after eq => noSign (List.cons.inj eq).1
  cases gap with
  | nil =>
    obtain ⟨name, unquoted⟩ := first rfl
    exact ⟨fun bare => stops_cons (unquoted bare), fun _ => stops_cons name, fun _ => nothing⟩
  | cons g gap =>
    obtain ⟨name, unquoted, _⟩ := not_nameChar_of_isGap (blank g List.mem_cons_self)
    exact ⟨fun _ => stops_cons unquoted, fun _ => stops_cons name, fun _ => nothing⟩

/-- The marks that end a start tag. -/
def IsTagMark (c : Char) : Prop := c = '/' ∨ c = '>'

theorem IsTagMark.outside {c : Char} (mark : IsTagMark c) :
    isGap c = false ∧ c ≠ '=' ∧ isAttributeNameChar c = false ∧ isTagNameChar c = false := by
  rcases mark with rfl | rfl <;> decide

theorem attribute?_eq_none {gap rest : Text} {c : Char} (blank : ∀ d ∈ gap, isGap d = true)
    (mark : IsTagMark c) : attribute? (gap ++ c :: rest) = none := by
  have read := run_append (t := c :: rest) blank (stops_cons mark.outside.1)
  have noName : run isAttributeNameChar (c :: rest) = ([], c :: rest) :=
    run_append (s := []) (fun d member => absurd member List.not_mem_nil) (stops_cons mark.outside.2.2.1)
  unfold attribute?
  rw [read]
  split
  · rfl
  · next gap' rest' _ eq =>
    obtain ⟨rfl, rfl⟩ := Prod.mk.inj eq
    rw [noName]

theorem attributes_of_some {t rest : Text} {read : WrittenAttribute}
    (h : attribute? t = some (read, rest)) :
    attributes t = (read :: (attributes rest).1, (attributes rest).2) := by
  rw [attributes]
  split
  · next read' rest' h' =>
    rw [h] at h'
    obtain ⟨rfl, rfl⟩ := Prod.mk.inj (Option.some.inj h')
    rfl
  · next h' =>
    simp [h] at h'

theorem attributes_of_none {t : Text} (h : attribute? t = none) : attributes t = ([], t) := by
  rw [attributes]
  split
  · next read' rest' h' =>
    simp [h] at h'
  · rfl

/-- Attributes in a row read as they are meant in front of the end of a tag. -/
theorem attributes_text {list : List WrittenAttribute} {gap rest : Text} {c : Char}
    (legible : ∀ a ∈ list, a.Legible) (blank : ∀ d ∈ gap, isGap d = true) (mark : IsTagMark c)
    (apart : c = '/' → gap = [] → ∀ a, list.getLast? = some a → a.isUnquoted = false) :
    attributes (list.flatMap WrittenAttribute.text ++ (gap ++ c :: rest)) = (list, gap ++ c :: rest) := by
  induction list with
  | nil =>
    rw [List.flatMap_nil, List.nil_append]
    exact attributes_of_none (attribute?_eq_none blank mark)
  | cons a list ih =>
    have following := ih (fun b member => legible b (List.mem_cons_of_mem _ member)) (by
      intro slash noGap b last
      refine apart slash noGap b ?_
      cases list with
      | nil => simp at last
      | cons next list => rw [List.getLast?_cons_cons]; exact last)
    have ends : Ends a (list.flatMap WrittenAttribute.text ++ (gap ++ c :: rest)) := by
      cases list with
      | nil =>
        refine ends_of_gap blank mark.outside.1 mark.outside.2.1 fun noGap => ⟨mark.outside.2.2.1, ?_⟩
        intro unquoted
        rcases mark with rfl | rfl
        · rw [apart rfl noGap a rfl] at unquoted
          exact Bool.noConfusion unquoted
        · decide
      | cons next list =>
        -- the blanks and the name of the next attribute
        have here := legible next (List.mem_cons_of_mem _ List.mem_cons_self)
        obtain ⟨d, name, eq⟩ := List.exists_cons_of_ne_nil here.some_name
        have first := here.name d (by rw [eq]; exact List.mem_cons_self)
        have noSign : d ≠ '=' := by
          rintro rfl
          exact absurd first (by decide)
        obtain ⟨more, spelled⟩ : ∃ more, next.text = next.gap ++ d :: more :=
          ⟨_, by rw [WrittenAttribute.text, eq, List.append_assoc, List.cons_append]⟩
        rw [List.flatMap_cons, spelled, List.append_assoc, List.append_assoc, List.cons_append]
        exact ends_of_gap here.gap (not_isGap_of_nameChar first) noSign
          fun noGap => absurd noGap here.some_gap
    rw [List.flatMap_cons, List.append_assoc,
      attributes_of_some (attribute?_text (legible a List.mem_cons_self) ends), following]

theorem tagName?_append {name rest : Text}
    (legible : ∃ c more, name = c :: more ∧ c.isAlpha = true ∧ ∀ d ∈ more, isTagNameChar d = true)
    (stops : Stops isTagNameChar rest) : tagName? (name ++ rest) = some (name, rest) := by
  obtain ⟨c, more, rfl, letter, inside⟩ := legible
  obtain ⟨taken, dropped⟩ := Prod.mk.inj (run_append inside stops)
  rw [List.cons_append, tagName?, if_pos letter, taken, dropped]

/-- The name of a tag ends before the blanks or the mark that follow. -/
theorem stops_tagName {list : List WrittenAttribute} {gap : Text} (rest : Text) {c : Char}
    (legible : ∀ a ∈ list, a.Legible) (blank : ∀ d ∈ gap, isGap d = true) (mark : IsTagMark c) :
    Stops isTagNameChar (list.flatMap WrittenAttribute.text ++ (gap ++ c :: rest)) := by
  cases list with
  | nil =>
    cases gap with
    | nil => exact stops_cons mark.outside.2.2.2
    | cons g gap => exact stops_cons (not_nameChar_of_isGap (blank g List.mem_cons_self)).2.2
  | cons a list =>
    have here := legible a List.mem_cons_self
    obtain ⟨g, gap, eq⟩ := List.exists_cons_of_ne_nil here.some_gap
    have first := here.gap g (by rw [eq]; exact List.mem_cons_self)
    rw [List.flatMap_cons, WrittenAttribute.text, eq]
    exact stops_cons (not_nameChar_of_isGap first).2.2

/-- A legible start tag reads as itself, whatever follows it. -/
theorem startTag?_text {tag : WrittenTag} (legible : tag.Legible) (rest : Text) :
    startTag? (tag.text ++ rest) = some (tag, rest) := by
  obtain ⟨name, list, gap, slash⟩ := tag
  have read (c : Char) (more : Text) (mark : IsTagMark c)
      (apart : c = '/' → gap = [] → ∀ a, list.getLast? = some a → a.isUnquoted = false) :
      (Text.after? ['<'] ('<' :: (name ++ (list.flatMap WrittenAttribute.text ++ (gap ++ c :: more))))).bind
          tagName? = some (name, list.flatMap WrittenAttribute.text ++ (gap ++ c :: more)) ∧
        attributes (list.flatMap WrittenAttribute.text ++ (gap ++ c :: more)) = (list, gap ++ c :: more) ∧
        run isGap (gap ++ c :: more) = (gap, c :: more) := by
    refine ⟨?_, attributes_text legible.attributes legible.gap mark apart,
      run_append legible.gap (stops_cons mark.outside.1)⟩
    have opened := Text.after?_append ['<']
      (name ++ (list.flatMap WrittenAttribute.text ++ (gap ++ c :: more)))
    rw [List.singleton_append] at opened
    rw [opened, Option.bind_some]
    exact tagName?_append legible.name (stops_tagName _ legible.attributes legible.gap mark)
  cases slash with
  | true =>
    obtain ⟨named, listed, ended⟩ := read '/' ('>' :: rest) (Or.inl rfl) fun _ => legible.apart rfl
    simp only [WrittenTag.text, if_true, List.cons_append, List.append_assoc, List.nil_append]
    simp only [startTag?, named, listed, ended]
  | false =>
    obtain ⟨named, listed, ended⟩ := read '>' rest (Or.inr rfl) fun no => absurd no (by decide)
    simp only [WrittenTag.text, Bool.false_eq_true, if_false, List.cons_append, List.append_assoc,
      List.nil_append]
    simp only [startTag?, named, listed, ended]

theorem cutAt?_without {mark : Char} {t content rest : Text}
    (h : Text.cutAt? mark t = some (content, rest)) : mark ∉ content := by
  unfold Text.cutAt? at h
  split at h
  · simp at h
  · obtain ⟨rfl, _⟩ := Prod.mk.inj (Option.some.inj h)
    intro member
    have := List.all_eq_true.mp (List.all_takeWhile (p := (· != mark)) (l := t)) mark member
    simp at this

theorem value?_legible {t rest : Text} {value : WrittenValue} (h : value? t = some (value, rest)) :
    value.Legible ∧ ∀ content, value = .bare content → Stops isBareValueChar rest := by
  have quoted {mark : Char} {inner : Text} (own : mark = '"' ∨ mark = '\'')
      (h : quoted? mark inner = some (value, rest)) :
      value.Legible ∧ ∀ content, value = .bare content → Stops isBareValueChar rest := by
    obtain ⟨⟨content, after⟩, found, eq⟩ := Option.map_eq_some_iff.mp h
    obtain ⟨rfl, rfl⟩ := Prod.mk.inj eq
    exact ⟨⟨own, cutAt?_without found⟩, fun _ eq => WrittenValue.noConfusion eq⟩
  unfold value? at h
  split at h
  · exact quoted (Or.inl rfl) h
  · exact quoted (Or.inr rfl) h
  · unfold bare? at h
    split at h
    · simp at h
    · next content after some_content taken =>
      obtain ⟨rfl, rfl⟩ := Prod.mk.inj (Option.some.inj h)
      exact ⟨⟨some_content, run_inside taken⟩, fun _ _ => run_stops taken⟩

theorem assignment?_legible {t rest : Text} {a : Assignment} (h : assignment? t = some (a, rest)) :
    a.Legible ∧ ∀ content, a.value = .bare content → Stops isBareValueChar rest := by
  unfold assignment? at h
  split at h
  · next before inner gapBefore =>
    obtain ⟨⟨value, after⟩, found, eq⟩ := Option.map_eq_some_iff.mp h
    obtain ⟨rfl, rfl⟩ := Prod.mk.inj eq
    obtain ⟨legible, stops⟩ := value?_legible found
    exact ⟨⟨run_inside gapBefore, run_inside (t := inner) rfl, legible⟩, stops⟩
  · simp at h

theorem attribute?_legible {t rest : Text} {a : WrittenAttribute} (h : attribute? t = some (a, rest)) :
    a.Legible ∧ (a.isUnquoted = true → Stops isBareValueChar rest) := by
  unfold attribute? at h
  split at h
  · simp at h
  · next gap afterGap some_gap gapRun =>
    split at h
    · simp at h
    · next name afterName some_name nameRun =>
      split at h
      · next assignment after found =>
        obtain ⟨rfl, rfl⟩ := Prod.mk.inj (Option.some.inj h)
        obtain ⟨legible, stops⟩ := assignment?_legible found
        refine ⟨⟨some_gap, run_inside gapRun, some_name, run_inside nameRun, ?_⟩, ?_⟩
        · intro own eq
          rw [← Option.some.inj eq]
          exact legible
        · intro unquoted
          obtain ⟨_, _, _ | content⟩ := assignment
          · exact Bool.noConfusion unquoted
          · exact stops content rfl
      · obtain ⟨rfl, rfl⟩ := Prod.mk.inj (Option.some.inj h)
        refine ⟨⟨some_gap, run_inside gapRun, some_name, run_inside nameRun, ?_⟩, ?_⟩
        · exact fun _ eq => by simp at eq
        · exact fun unquoted => Bool.noConfusion unquoted

theorem attributes_legible (t : Text) :
    (∀ a ∈ (attributes t).1, a.Legible) ∧ ∀ a, (attributes t).1.getLast? = some a →
      a.isUnquoted = true → Stops isBareValueChar (attributes t).2 := by
  fun_induction attributes t with
  | case1 t read rest h _ ih =>
    obtain ⟨legible, stops⟩ := attribute?_legible h
    obtain ⟨others, last⟩ := ih
    constructor
    · intro a member
      rcases List.mem_cons.mp member with rfl | later
      · exact legible
      · exact others a later
    · intro a isLast unquoted
      cases list : (attributes rest).1 with
      | nil =>
        rw [list, List.getLast?_singleton] at isLast
        obtain rfl := Option.some.inj isLast
        have none : (attributes rest).2 = rest := by
          have spelled := attributes_spells rest
          rwa [list] at spelled
        rw [none]
        exact stops unquoted
      | cons next list' =>
        rw [list, List.getLast?_cons_cons, ← list] at isLast
        exact last a isLast unquoted
  | case2 => exact ⟨fun a member => absurd member List.not_mem_nil, fun a isLast => by simp at isLast⟩

theorem tagName?_legible {t name rest : Text} (h : tagName? t = some (name, rest)) :
    ∃ c more, name = c :: more ∧ c.isAlpha = true ∧ ∀ d ∈ more, isTagNameChar d = true := by
  unfold tagName? at h
  split at h
  · simp at h
  · next c t =>
    split at h
    · next letter =>
      obtain ⟨rfl, rfl⟩ := Prod.mk.inj (Option.some.inj h)
      exact ⟨c, _, rfl, letter, run_inside (t := t) rfl⟩
    · simp at h

/-- What is read as a start tag is legible, and whatever follows it, the same tag is read. -/
theorem startTag?_legible {t rest : Text} {tag : WrittenTag} (h : startTag? t = some (tag, rest)) :
    tag.Legible := by
  unfold startTag? at h
  split at h
  · simp at h
  · next name afterName found =>
    obtain ⟨inner, _, named⟩ := Option.bind_eq_some_iff.mp found
    have name_legible := tagName?_legible named
    have ⟨legible, last⟩ := attributes_legible afterName
    split at h
    next list afterList listed =>
    rw [listed] at legible last
    split at h
    · next gap after gapRun =>
      obtain ⟨rfl, rfl⟩ := Prod.mk.inj (Option.some.inj h)
      refine ⟨name_legible, legible, run_inside gapRun, fun _ noGap a isLast => ?_⟩
      rw [← Bool.not_eq_true]
      intro unquoted
      -- the value would have gone on with the slash
      have stops := last a isLast unquoted
      have spelled := run_spells gapRun
      simp only at noGap
      rw [noGap, List.nil_append] at spelled
      exact absurd (stops '/' _ spelled) (by decide)
    · next gap after gapRun =>
      obtain ⟨rfl, rfl⟩ := Prod.mk.inj (Option.some.inj h)
      exact ⟨name_legible, legible, run_inside gapRun, fun no => Bool.noConfusion no⟩
    · simp at h

theorem endTag?_text {name gap : Text} (legible : (Token.endTag name gap).Legible) (rest : Text) :
    endTag? ((Token.endTag name gap).text ++ rest) = some (.endTag name gap, rest) := by
  obtain ⟨name_legible, blank⟩ := legible
  have mark : IsTagMark '>' := Or.inr rfl
  have stops := stops_tagName rest (fun a member => absurd member List.not_mem_nil) blank mark
  have named := tagName?_append name_legible stops
  have ended := run_append (t := '>' :: rest) blank (stops_cons rfl)
  have opened := Text.after?_append ['<', '/'] (name ++ (gap ++ '>' :: rest))
  rw [List.flatMap_nil, List.nil_append] at named
  simp only [List.cons_append, List.nil_append] at opened
  simp only [Token.text, List.cons_append, List.append_assoc, List.nil_append]
  simp only [endTag?, opened, Option.bind_some, named, ended]

theorem endTag?_legible {t rest : Text} {token : Token} (h : endTag? t = some (token, rest)) :
    token.Legible := by
  unfold endTag? at h
  split at h
  · simp at h
  · next name afterName found =>
    obtain ⟨inner, _, named⟩ := Option.bind_eq_some_iff.mp found
    split at h
    · next gap after gapRun =>
      obtain ⟨rfl, rfl⟩ := Prod.mk.inj (Option.some.inj h)
      exact ⟨tagName?_legible named, run_inside gapRun⟩
    · simp at h

theorem element?_legible {t rest : Text} {token : Token} (h : element? t = some (token, rest)) :
    token.Legible := by
  obtain ⟨⟨tag, afterTag⟩, found, eq⟩ := Option.map_eq_some_iff.mp h
  have legible := startTag?_legible found
  cases opens : tag.opensRawText with
  | true =>
    simp only [opens, if_true] at eq
    obtain ⟨rfl, rfl⟩ := Prod.mk.inj eq
    exact ⟨legible, opens⟩
  | false =>
    simp only [opens, Bool.false_eq_true, if_false] at eq
    obtain ⟨rfl, rfl⟩ := Prod.mk.inj eq
    exact ⟨legible, opens⟩

theorem construct?_legible {opening closing t rest : Text} {wrap : Text → Token} {token : Token}
    (h : construct? opening closing wrap t = some (token, rest)) (all : ∀ text, (wrap text).Legible) :
    token.Legible := by
  obtain ⟨inner, _, eq⟩ := Option.map_eq_some_iff.mp h
  obtain ⟨rfl, _⟩ := Prod.mk.inj eq
  exact all _

theorem token?_legible {t rest : Text} {token : Token} (h : token? t = some (token, rest)) :
    token.Legible := by
  simp only [token?, Option.orElse_eq_orElse, Option.orElse_eq_or, Option.or_eq_some_iff] at h
  obtain h | ⟨_, h | ⟨_, h | ⟨_, h | ⟨_, h | ⟨_, h | ⟨_, h⟩⟩⟩⟩⟩⟩ := h
  · exact construct?_legible h fun _ => trivial
  · exact construct?_legible h fun _ => trivial
  · exact construct?_legible h fun _ => trivial
  · exact construct?_legible h fun _ => trivial
  · exact endTag?_legible h
  · exact element?_legible h
  · obtain ⟨c, s, rfl⟩ := plain?_form h
    trivial

theorem tokens_legible (t : Text) : ∀ token ∈ tokens t, token.Legible := by
  fun_induction tokens t with
  | case1 t token rest h _ ih =>
    intro other member
    rcases List.mem_cons.mp member with rfl | later
    · exact token?_legible h
    · exact ih other later
  | case2 => exact fun token member => absurd member List.not_mem_nil

end Scan

end MarkupTemplates
