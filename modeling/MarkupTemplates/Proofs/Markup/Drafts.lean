import MarkupTemplates.Proofs.ParsedTemplate.BodyTokens

namespace MarkupTemplates

/-- A name for elements that have an end tag and markup in between. -/
structure ElementName where
  text : Text
  word : ∃ c rest, text = c :: rest ∧ c.isAlpha = true ∧ ∀ d ∈ rest, isTagNameChar d = true
  paired : text.lower ∉ voidElements ∧ text.lower ∉ rawTextElements

structure DraftAttribute where
  name : Text
  value : Option Text
  word : IsAttributeWord name

/-- A row of a document that is still to be written: text, comments and elements, each with what comes
after it among its siblings. -/
inductive Draft where
  | done
  | text (t : Text) (plain : '<' ∉ t) (rest : Draft)
  | comment (content : Text) (unended : ¬ commentEnd <:+: content) (rest : Draft)
  | element (name : ElementName) (attributes : List DraftAttribute) (children rest : Draft)

/-- One blank, the name, and the value between quotation marks. -/
def DraftAttribute.text (a : DraftAttribute) : Text :=
  ' ' :: a.name ++ match a.value with
    | some value => '=' :: '"' :: MacroBody.attributeQuoted value ++ ['"']
    | none => []

/-- The attribute as it is when it has been written at byte `start`. -/
def DraftAttribute.placed (start : Nat) (a : DraftAttribute) : Attribute :=
  { name := a.name
    value := a.value
    span := ⟨start + 1, start + a.text.byteSize⟩
    valueStart := a.value.map fun _ => start + 1 + Text.byteSize a.name + 2 }

def DraftAttribute.placedInRow (start : Nat) : List DraftAttribute → List Attribute
  | [] => []
  | a :: rest => a.placed start :: placedInRow (start + a.text.byteSize) rest

namespace Draft

def openingTag (name : Text) (attributes : List DraftAttribute) : Text :=
  '<' :: name ++ attributes.flatMap DraftAttribute.text ++ ['>']

def closingTag (name : Text) : Text := '<' :: '/' :: name ++ ['>']

def commentText (content : Text) : Text := ("<!--" : Text) ++ (content ++ ("-->" : Text))

/-- The row in writing. -/
def written : Draft → Text
  | done => []
  | text t _ rest => t ++ rest.written
  | comment content _ rest => commentText content ++ rest.written
  | element name attributes children rest =>
    openingTag name.text attributes ++ (children.written ++ (closingTag name.text ++ rest.written))

/-- The nodes of the row, when it has been written at byte `start`. -/
def nodes (start : Nat) : Draft → List Node
  | done => []
  | text t _ rest => rest.nodes (start + t.byteSize)
  | comment content _ rest =>
    let stop := start + (commentText content).byteSize
    .comment ⟨start, stop⟩ :: rest.nodes stop
  | element name attributes children rest =>
    let inside := start + (openingTag name.text attributes).byteSize
    let stop := inside + children.written.byteSize + (closingTag name.text).byteSize
    let tag : Tag :=
      { name := name.text
        attributes := DraftAttribute.placedInRow (start + 1 + Text.byteSize name.text) attributes
        span := ⟨start, inside⟩ }
    .element tag stop (children.nodes inside) :: rest.nodes stop

end Draft

/-- The attribute in the spelling that it is given. -/
def DraftAttribute.spelled (a : DraftAttribute) : WrittenAttribute :=
  match a.value with
  | some value => .declaring a.name value
  | none => ⟨[' '], a.name, none⟩

theorem DraftAttribute.text_spelled (a : DraftAttribute) : a.spelled.text = a.text := by
  obtain ⟨name, _ | value, word⟩ := a
  · rfl
  · simp only [spelled, text, WrittenAttribute.text, WrittenAttribute.declaring, Assignment.text,
      WrittenValue.text, List.cons_append, List.nil_append]

theorem DraftAttribute.legible (a : DraftAttribute) : a.spelled.Legible := by
  obtain ⟨name, _ | value, word⟩ := a
  · exact ⟨by simp [spelled], List.all_eq_true.mp rfl, word.1, word.2, nofun⟩
  · exact WrittenAttribute.legible_declaring word.1 word.2

theorem DraftAttribute.located (start : Nat) (a : DraftAttribute) : a.spelled.located start = a.placed start := by
  have size := congrArg Text.byteSize a.text_spelled
  obtain ⟨name, _ | value, word⟩ := a
  · rw [WrittenAttribute.located, size]
    rfl
  · rw [WrittenAttribute.located, size, placed, Attribute.mk.injEq]
    exact ⟨rfl, congrArg some (MacroBody.resolved_attributeQuoted value), rfl, rfl⟩

theorem DraftAttribute.text_row (attributes : List DraftAttribute) :
    (attributes.map spelled).flatMap WrittenAttribute.text = attributes.flatMap text := by
  rw [List.flatMap_map]
  exact congrArg (attributes.flatMap ·) (funext text_spelled)

theorem DraftAttribute.located_row (start : Nat) (attributes : List DraftAttribute) :
    locatedInRow start (attributes.map spelled) = placedInRow start attributes := by
  induction attributes generalizing start with
  | nil => rfl
  | cons a rest ih => rw [List.map_cons, locatedInRow, placedInRow, located, text_spelled, ih]

/-- A start tag in the spelling that it is given. -/
def ElementName.tag (name : ElementName) (attributes : List DraftAttribute) : WrittenTag :=
  ⟨name.text, attributes.map DraftAttribute.spelled, [], false⟩

namespace ElementName

variable (name : ElementName) (attributes : List DraftAttribute)

theorem text_tag : (name.tag attributes).text = Draft.openingTag name.text attributes := by
  rw [WrittenTag.text, tag, DraftAttribute.text_row]
  simp only [Bool.false_eq_true, if_false, List.append_nil, Draft.openingTag]

theorem isWhole_tag : (name.tag attributes).isWhole = false := by
  simp only [tag, WrittenTag.isWhole, Bool.false_or, List.contains_eq_mem, decide_eq_false_iff_not]
  exact name.paired.1

theorem opensRawText_tag : (name.tag attributes).opensRawText = false := by
  simp only [WrittenTag.opensRawText, isWhole_tag, Bool.not_false, Bool.true_and, List.contains_eq_mem,
    decide_eq_false_iff_not]
  exact name.paired.2

theorem legible_tag : (name.tag attributes).Legible := by
  refine ⟨name.word, fun a member => ?_, fun _ member => absurd member List.not_mem_nil, nofun⟩
  obtain ⟨own, _, rfl⟩ := List.mem_map.mp member
  exact own.legible

theorem located_tag (start : Nat) : (name.tag attributes).located start =
    ⟨name.text, DraftAttribute.placedInRow (start + 1 + Text.byteSize name.text) attributes,
      ⟨start, start + (Draft.openingTag name.text attributes).byteSize⟩⟩ := by
  rw [WrittenTag.located, text_tag]
  simp only [tag, DraftAttribute.located_row]

theorem legible_endTag : (Token.endTag name.text []).Legible :=
  ⟨name.word, fun _ member => absurd member List.not_mem_nil⟩

theorem text_endTag : (Token.endTag name.text []).text = Draft.closingTag name.text := by
  rw [Token.text, List.append_nil, Draft.closingTag]

end ElementName

/-- The first mark that ends a comment is behind a content that holds none: no part of the mark can be the
beginning of it. -/
theorem Text.cut?_commentEnd {content : Text} (none : ¬ commentEnd <:+: content) (rest : Text) :
    cut? commentEnd (content ++ (commentEnd ++ rest)) = some (content, rest) := by
  induction content with
  | nil => exact cut?_mark (by decide) rest
  | cons c content ih =>
    have missing : after? commentEnd (c :: (content ++ (commentEnd ++ rest))) = Option.none := by
      cases found : after? commentEnd (c :: (content ++ (commentEnd ++ rest))) with
      | none => rfl
      | some after =>
        have split : c :: (content ++ (commentEnd ++ rest)) = '-' :: '-' :: '>' :: after :=
          eq_append_of_after? found
        cases content with
        | nil => exact absurd (List.cons.inj (List.cons.inj (List.cons.inj split).2).2).1 (by decide)
        | cons d content =>
          cases content with
          | nil => exact absurd (List.cons.inj (List.cons.inj (List.cons.inj split).2).2).1 (by decide)
          | cons e content =>
            obtain ⟨first, split⟩ := List.cons.inj split
            obtain ⟨second, split⟩ := List.cons.inj split
            have third := (List.cons.inj split).1
            subst first second third
            exact absurd ⟨[], content, rfl⟩ none
    rw [List.cons_append, cut?, missing]
    simp only [ih fun inside => none (List.infix_cons inside), Option.map_some]

/-- Text in front of markup, or at the end of a document, is a piece of its own, if there is any. -/
def textTokens (t : Text) : List Token := if t = [] then [] else [.plain t]

namespace Scan

theorem token?_commentText {content : Text} (none : ¬ commentEnd <:+: content) (rest : Text) :
    token? (Draft.commentText content ++ rest) = some (.comment (Draft.commentText content), rest) := by
  have closed : through "-->" (content ++ ("-->" : Text) ++ rest) = (content ++ ("-->" : Text), rest) := by
    rw [List.append_assoc, through, show Text.cut? ("-->" : Text) (content ++ (("-->" : Text) ++ rest)) =
      some (content, rest) from Text.cut?_commentEnd none rest]
  have read : construct? "<!--" "-->" .comment (Draft.commentText content ++ rest) =
      some (.comment (Draft.commentText content), rest) := by
    rw [Draft.commentText, construct?, List.append_assoc, Text.after?_append, Option.map_some, closed]
  rw [token?, read]
  rfl

theorem token?_openingTag (name : ElementName) (attributes : List DraftAttribute) (rest : Text) :
    token? (Draft.openingTag name.text attributes ++ rest) = some (.startTag (name.tag attributes), rest) := by
  have legible := name.legible_tag attributes
  rw [← name.text_tag, token?_startTag legible, element?, startTag?_text legible, Option.map_some]
  simp only [name.opensRawText_tag, Bool.false_eq_true, if_false]

theorem token?_closingTag (name : ElementName) (rest : Text) :
    token? (Draft.closingTag name.text ++ rest) = some (.endTag name.text [], rest) := by
  have read := endTag?_text name.legible_endTag rest
  rw [name.text_endTag] at read
  have slash : Draft.closingTag name.text ++ rest = '<' :: '/' :: (name.text ++ ['>'] ++ rest) := rfl
  rw [slash] at read ⊢
  simp only [token?, Option.orElse_eq_orElse, Option.orElse_eq_or, Option.or_eq_some_iff]
  exact Or.inr ⟨construct?_eq_none (by decide), Or.inr ⟨construct?_eq_none (by decide),
    Or.inr ⟨construct?_eq_none (by decide), Or.inr ⟨construct?_eq_none (by decide), Or.inl read⟩⟩⟩⟩

theorem tokens_text {t rest : Text} (plain : '<' ∉ t) (stops : Stops (· != '<') rest) :
    tokens (t ++ rest) = textTokens t ++ tokens rest := by
  cases t with
  | nil => rfl
  | cons c t =>
    obtain ⟨first, others⟩ : c ≠ '<' ∧ '<' ∉ t := by simpa [eq_comm] using plain
    have other {opening closing : Text} {wrap : Text → Token} :
        construct? ('<' :: opening) closing wrap (c :: (t ++ rest)) = none := by
      rw [construct?, Text.after?, if_neg (Ne.symm first), Option.map_none]
    have noEndTag : endTag? (c :: (t ++ rest)) = none := by
      rw [endTag?, Text.after?, if_neg (Ne.symm first)]
      rfl
    have noElement : element? (c :: (t ++ rest)) = none := by
      rw [element?, startTag?, Text.after?, if_neg (Ne.symm first)]
      rfl
    have inside : ∀ d ∈ t, (d != '<') = true := fun d member =>
      bne_iff_ne.mpr fun eq => others (eq ▸ member)
    obtain ⟨taken, dropped⟩ := Prod.mk.inj (run_append inside stops)
    have read : token? (c :: (t ++ rest)) = some (.plain (c :: t), rest) := by
      simp only [token?, Option.orElse_eq_orElse, Option.orElse_eq_or, Option.or_eq_some_iff]
      refine Or.inr ⟨other, Or.inr ⟨other, Or.inr ⟨other, Or.inr ⟨other, Or.inr ⟨noEndTag, Or.inr ⟨noElement, ?_⟩⟩⟩⟩⟩⟩
      rw [plain?, taken, dropped]
    rw [List.cons_append, tokens_of_some read, textTokens, if_neg (List.cons_ne_nil c t)]
    rfl

end Scan

theorem Formed.text {outer left : List Text} {start : Nat} {tokens : List Token} {nodes : List Node} (t : Text)
    (formed : Formed outer (start + t.byteSize) tokens nodes left) :
    Formed outer start (textTokens t ++ tokens) nodes left := by
  rw [textTokens]
  by_cases none : t = []
  · subst none
    exact formed
  · rw [if_neg none]
    exact .plain formed

/-- An element that was written around a row is formed around the nodes of the row. -/
theorem Formed.drafted {outer : List Text} {start : Nat} {inner tokens : List Token} {children nodes : List Node}
    (name : ElementName) (attributes : List DraftAttribute) :
    let inside := start + (Draft.openingTag name.text attributes).byteSize
    let stop := inside + (spelling inner).byteSize + (Draft.closingTag name.text).byteSize
    let tag : Tag :=
      { name := name.text
        attributes := DraftAttribute.placedInRow (start + 1 + Text.byteSize name.text) attributes
        span := ⟨start, inside⟩ }
    Formed (name.text :: outer) inside inner children [] → Formed outer stop tokens nodes [] →
      Formed outer start (.startTag (name.tag attributes) :: inner ++ .endTag name.text [] :: tokens)
        (.element tag stop children :: nodes) [] := by
  intro inside stop tag content others
  have closing : (Token.endTag (name.tag attributes).name []).text = Draft.closingTag name.text := name.text_endTag
  have size : start + (spelling (.startTag (name.tag attributes) :: inner ++
      [.endTag (name.tag attributes).name []])).byteSize = stop := by
    rw [byteSize_spelling_append, byteSize_spelling_cons, byteSize_spelling_singleton, Token.text, name.text_tag,
      closing]
    omega
  have opening : start + Text.byteSize (name.tag attributes).text = inside := by rw [name.text_tag]
  rw [← opening] at content
  rw [← size] at others
  have all := Formed.closed (name.isWhole_tag attributes) content
    (fun other member => absurd member List.not_mem_nil) rfl others
  rw [size, name.located_tag] at all
  exact all

theorem spelling_textTokens (t : Text) : spelling (textTokens t) = t := by
  rw [textTokens]
  by_cases none : t = []
  · rw [if_pos none, none, spelling_nil]
  · rw [if_neg none, spelling_cons, spelling_nil, List.append_nil]
    rfl

namespace Draft

/-- The row is read piece by piece behind a text that its own text may continue, as long as it is followed by
markup or by nothing. -/
theorem read (draft : Draft) {t rest : Text} (plain : '<' ∉ t) (stops : Stops (· != '<') rest) :
    ∃ tokens, Scan.tokens (t ++ (draft.written ++ rest)) = tokens ++ Scan.tokens rest ∧
      spelling tokens = t ++ draft.written ∧
      ∀ outer start, Formed outer start tokens (draft.nodes (start + t.byteSize)) [] := by
  induction draft generalizing t rest with
  | done =>
    refine ⟨_, Scan.tokens_text plain stops, by rw [spelling_textTokens, written, List.append_nil], fun outer start => ?_⟩
    have formed := (@Formed.done outer (start + t.byteSize)).text t
    rwa [List.append_nil] at formed
  | text s plain' more ih =>
    have joined : '<' ∉ t ++ s := by simp [plain, plain']
    obtain ⟨tokens, read, spelled, formed⟩ := ih joined stops
    refine ⟨tokens, ?_, ?_, fun outer start => ?_⟩
    · rw [← read, written, List.append_assoc, List.append_assoc]
    · rw [spelled, written, List.append_assoc]
    · have own := formed outer start
      rwa [Text.byteSize_append, ← Nat.add_assoc] at own
  | comment content unended more ih =>
    have opening : Stops (· != '<') (commentText content ++ (more.written ++ rest)) := stops_cons rfl
    obtain ⟨tokens, read, spelled, formed⟩ := @ih [] rest List.not_mem_nil stops
    rw [List.nil_append] at read spelled
    refine ⟨textTokens t ++ .comment (commentText content) :: tokens, ?_, ?_, fun outer start => ?_⟩
    · rw [written, List.append_assoc, Scan.tokens_text plain opening,
        Scan.tokens_of_some (Scan.token?_commentText unended _), read,
        List.append_assoc, List.cons_append]
    · rw [spelling_append, spelling_textTokens, spelling_cons, spelled]
      rfl
    · exact .text t (.comment (formed outer _))
  | element name attributes children more ihChildren ihMore =>
    have opening : Stops (· != '<') (openingTag name.text attributes ++
      (children.written ++ (closingTag name.text ++ (more.written ++ rest)))) := stops_cons rfl
    have closing : Stops (· != '<') (closingTag name.text ++ (more.written ++ rest)) := stops_cons rfl
    obtain ⟨inner, readInner, spelledInner, formedInner⟩ := @ihChildren [] _ List.not_mem_nil closing
    obtain ⟨tokens, read, spelled, formed⟩ := @ihMore [] rest List.not_mem_nil stops
    rw [List.nil_append] at readInner spelledInner read spelled
    refine ⟨textTokens t ++ (.startTag (name.tag attributes) :: inner ++ .endTag name.text [] :: tokens), ?_, ?_,
      fun outer start => ?_⟩
    · rw [written]
      simp only [List.append_assoc]
      rw [Scan.tokens_text plain opening, Scan.tokens_of_some (Scan.token?_openingTag name attributes _),
        readInner, Scan.tokens_of_some (Scan.token?_closingTag name _), read]
      simp only [List.cons_append]
    · rw [spelling_append, spelling_textTokens, spelling_append, spelling_cons, spelling_cons, spelledInner, spelled,
        Token.text, name.text_tag, name.text_endTag, written, List.append_assoc]
    · rw [nodes, ← spelledInner]
      have content := formedInner (name.text :: outer) (start + t.byteSize + (openingTag name.text attributes).byteSize)
      exact .text t (.drafted name attributes content (formed outer _))

/-- A document reads as the row that was written, with all its pieces where they were written. -/
theorem nodes_written (draft : Draft) : draft.written.nodes = draft.nodes 0 := by
  obtain ⟨tokens, read, _, formed⟩ := @draft.read [] [] List.not_mem_nil nofun
  rw [List.nil_append, List.append_nil, Scan.tokens_nil, List.append_nil] at read
  rw [Text.nodes, read]
  exact (formed [] 0).finish

end Draft

end MarkupTemplates
