import MarkupTemplates.Markup.Token
import MarkupTemplates.Text.Blank
import MarkupTemplates.Text.Letter

namespace MarkupTemplates

/-- The characters of tag names after the first one, which is a letter of ASCII. -/
def isTagNameChar (c : Char) : Bool :=
  isLetterOrNumeral c || c = '-' || c = '_' || c = ':' || c = '.'

def isAttributeNameChar (c : Char) : Bool :=
  !isBlank c && c != '"' && c != '\'' && c != '<' && c != '>' && c != '/' && c != '='

/-- The characters of a value without quotation marks; the slash is one of them. -/
def isBareValueChar (c : Char) : Bool :=
  !isBlank c && c != '"' && c != '\'' && c != '<' && c != '>'

/-- Elements that never have content, in lower case. -/
def voidElements : List Text :=
  ["area", "base", "br", "col", "embed", "hr", "img", "input", "link", "meta", "param", "source",
    "track", "wbr"]

/-- Elements whose content is not markup, in lower case. -/
def rawTextElements : List Text := ["script", "style"]

/-- A start tag that is an element of its own. -/
def WrittenTag.isWhole (tag : WrittenTag) : Bool :=
  tag.slash || voidElements.contains (Text.lower tag.name)

/-- A start tag after which no markup is read until its end tag. -/
def WrittenTag.opensRawText (tag : WrittenTag) : Bool :=
  !tag.isWhole && rawTextElements.contains (Text.lower tag.name)

namespace Scan

/-- The first characters of class `p` and what follows them. -/
def run (p : Char → Bool) (t : Text) : Text × Text := (t.takeWhile p, t.dropWhile p)

/-- The text through the first occurrence of `mark`, or all of it. -/
def through (mark t : Text) : Text × Text :=
  match Text.cut? mark t with
  | some (before, rest) => (before ++ mark, rest)
  | none => (t, [])

def quoted? (mark : Char) (t : Text) : Option (WrittenValue × Text) :=
  (Text.cutAt? mark t).map fun (content, rest) => (.quoted mark content, rest)

def bare? (t : Text) : Option (WrittenValue × Text) :=
  match run isBareValueChar t with
  | ([], _) => none
  | (content, rest) => some (.bare content, rest)

def value? (t : Text) : Option (WrittenValue × Text) :=
  match t with
  | '"' :: inner => quoted? '"' inner
  | '\'' :: inner => quoted? '\'' inner
  | _ => bare? t

def assignment? (t : Text) : Option (Assignment × Text) :=
  match run isGap t with
  | (before, '=' :: t) =>
    match run isGap t with
    | (after, t) => (value? t).map fun (value, rest) => (⟨before, after, value⟩, rest)
  | _ => none

/-- An attribute needs a blank in front of it. Where an equals sign has no readable value after it,
the attribute ends before the sign. -/
def attribute? (t : Text) : Option (WrittenAttribute × Text) :=
  match run isGap t with
  | ([], _) => none
  | (gap, t) =>
    match run isAttributeNameChar t with
    | ([], _) => none
    | (name, t) =>
      match assignment? t with
      | some (assignment, rest) => some (⟨gap, name, some assignment⟩, rest)
      | none => some (⟨gap, name, none⟩, t)

theorem run_spells {p : Char → Bool} {t taken rest : Text} (h : run p t = (taken, rest)) :
    t = taken ++ rest := by
  obtain ⟨rfl, rfl⟩ := Prod.mk.inj h
  exact List.takeWhile_append_dropWhile.symm

theorem through_spells (mark t : Text) : (through mark t).1 ++ (through mark t).2 = t := by
  unfold through
  split
  · next found => exact (Text.eq_append_of_cut? found).symm
  · simp

theorem value?_spells {t rest : Text} {value : WrittenValue} (h : value? t = some (value, rest)) :
    t = value.text ++ rest := by
  have quoted {mark : Char} {inner : Text} (h : quoted? mark inner = some (value, rest)) :
      mark :: inner = value.text ++ rest := by
    obtain ⟨⟨content, rest⟩, found, eq⟩ := Option.map_eq_some_iff.1 h
    obtain ⟨rfl, rfl⟩ := Prod.mk.inj eq
    rw [Text.eq_append_of_cutAt? found]
    simp [WrittenValue.text]
  unfold value? at h
  split at h
  · exact quoted h
  · exact quoted h
  · unfold bare? at h
    split at h
    · simp at h
    · next taken =>
      obtain ⟨rfl, rfl⟩ := Prod.mk.inj (Option.some.inj h)
      exact run_spells taken

theorem assignment?_spells {t rest : Text} {assignment : Assignment}
    (h : assignment? t = some (assignment, rest)) : t = assignment.text ++ rest := by
  unfold assignment? at h
  split at h
  · next before inner gapBefore =>
    obtain ⟨⟨value, rest⟩, found, eq⟩ := Option.map_eq_some_iff.1 h
    obtain ⟨rfl, rfl⟩ := Prod.mk.inj eq
    have gapAfter : inner = inner.takeWhile isGap ++ (value.text ++ rest) := by
      rw [← value?_spells found]
      exact run_spells (p := isGap) rfl
    rw [run_spells gapBefore]
    simp [Assignment.text, ← gapAfter]
  · simp at h

theorem attribute?_spells {t rest : Text} {read : WrittenAttribute}
    (h : attribute? t = some (read, rest)) : t = read.text ++ rest := by
  unfold attribute? at h
  split at h
  · simp at h
  · next gap afterGap _ gapRun =>
    split at h
    · simp at h
    · next name afterName _ nameRun =>
      rw [run_spells gapRun, run_spells nameRun]
      split at h
      · next assignment tail found =>
        obtain ⟨rfl, rfl⟩ := Prod.mk.inj (Option.some.inj h)
        rw [assignment?_spells found]
        simp [WrittenAttribute.text]
      · obtain ⟨rfl, rfl⟩ := Prod.mk.inj (Option.some.inj h)
        simp [WrittenAttribute.text]

theorem attribute?_gap_ne_nil {t rest : Text} {read : WrittenAttribute}
    (h : attribute? t = some (read, rest)) : read.gap ≠ [] := by
  unfold attribute? at h
  split at h
  · simp at h
  · next gap afterGap some_gap gapRun =>
    have gap_ne : gap ≠ [] := some_gap
    split at h
    · simp at h
    · split at h <;>
      · obtain ⟨rfl, rfl⟩ := Prod.mk.inj (Option.some.inj h)
        exact gap_ne

theorem attribute?_length {t rest : Text} {read : WrittenAttribute}
    (h : attribute? t = some (read, rest)) : rest.length < t.length := by
  have gap := List.length_pos_iff.2 (attribute?_gap_ne_nil h)
  rw [attribute?_spells h]
  simp only [WrittenAttribute.text, List.length_append]
  omega

/-- As many attributes as can be read one after the other. -/
def attributes (t : Text) : List WrittenAttribute × Text :=
  match h : attribute? t with
  | some (read, rest) =>
    have := attribute?_length h
    (read :: (attributes rest).1, (attributes rest).2)
  | none => ([], t)
termination_by t.length

theorem attributes_spells (t : Text) :
    (attributes t).1.flatMap WrittenAttribute.text ++ (attributes t).2 = t := by
  fun_induction attributes t with
  | case1 t read rest h _ ih =>
    rw [attribute?_spells h]
    simpa using ih
  | case2 => simp

def tagName? : Text → Option (Text × Text)
  | [] => none
  | c :: t => if c.isAlpha then some (c :: t.takeWhile isTagNameChar, t.dropWhile isTagNameChar) else none

def startTag? (t : Text) : Option (WrittenTag × Text) :=
  match (Text.after? ['<'] t).bind tagName? with
  | none => none
  | some (name, t) =>
    match attributes t with
    | (attributes, t) =>
      match run isGap t with
      | (gap, '/' :: '>' :: rest) => some (⟨name, attributes, gap, true⟩, rest)
      | (gap, '>' :: rest) => some (⟨name, attributes, gap, false⟩, rest)
      | _ => none

def endTag? (t : Text) : Option (Token × Text) :=
  match (Text.after? ['<', '/'] t).bind tagName? with
  | none => none
  | some (name, t) =>
    match run isGap t with
    | (gap, '>' :: rest) => some (.endTag name gap, rest)
    | _ => none

/-- What belongs to an element without markup inside: all through the bracket that follows the first
end tag opening with the name, given in lower case; the case of the source does not matter. -/
def rawContent (name : Text) : Text → Text × Text
  | [] => ([], [])
  | c :: t =>
    match Text.after? ('<' :: '/' :: name) (Text.lower (c :: t)) with
    | some _ => through ['>'] (c :: t)
    | none => (c :: (rawContent name t).1, (rawContent name t).2)

/-- A start tag, with the content that has to be passed over if there is some. -/
def element? (t : Text) : Option (Token × Text) :=
  (startTag? t).map fun (tag, rest) =>
    if tag.opensRawText then
      (.rawElement tag (rawContent (Text.lower tag.name) rest).1, (rawContent (Text.lower tag.name) rest).2)
    else (.startTag tag, rest)

/-- Comments, and other constructs that are passed over, run to the end of the source if they are
never closed. -/
def construct? (opening closing : Text) (token : Text → Token) (t : Text) : Option (Token × Text) :=
  (Text.after? opening t).map fun inner =>
    (token (opening ++ (through closing inner).1), (through closing inner).2)

/-- Up to the next angle bracket. One that starts the text begins no tag and is plain text, too. -/
def plain? : Text → Option (Token × Text)
  | [] => none
  | c :: t => some (.plain (c :: t.takeWhile (· != '<')), t.dropWhile (· != '<'))

/-- The first piece of a text, in the first reading that applies. -/
def token? (t : Text) : Option (Token × Text) :=
  construct? "<!--" "-->" .comment t
    <|> construct? "<![CDATA[" "]]>" .plain t
    <|> construct? "<!" ">" .plain t
    <|> construct? "<?" ">" .plain t
    <|> endTag? t
    <|> element? t
    <|> plain? t

theorem tagName?_spells {t name rest : Text} (h : tagName? t = some (name, rest)) :
    t = name ++ rest := by
  unfold tagName? at h
  split at h
  · simp at h
  · split at h
    · obtain ⟨rfl, rfl⟩ := Prod.mk.inj (Option.some.inj h)
      simp
    · simp at h

theorem opened_spells {opening t name rest : Text}
    (h : (Text.after? opening t).bind tagName? = some (name, rest)) : t = opening ++ name ++ rest := by
  obtain ⟨inner, opened, named⟩ := Option.bind_eq_some_iff.1 h
  rw [Text.eq_append_of_after? opened, tagName?_spells named, List.append_assoc]

theorem startTag?_spells {t rest : Text} {tag : WrittenTag} (h : startTag? t = some (tag, rest)) :
    t = tag.text ++ rest := by
  unfold startTag? at h
  split at h
  · simp at h
  · next name afterName found =>
    split at h
    next list afterList listed =>
    have spelled := attributes_spells afterName
    rw [listed] at spelled
    have closed := run_spells (p := isGap) (t := afterList) rfl
    rw [opened_spells found, ← spelled]
    split at h
    · next gap _ gapRun =>
      obtain ⟨rfl, rfl⟩ := Prod.mk.inj (Option.some.inj h)
      simp [run_spells gapRun, WrittenTag.text]
    · next gap _ gapRun =>
      obtain ⟨rfl, rfl⟩ := Prod.mk.inj (Option.some.inj h)
      simp [run_spells gapRun, WrittenTag.text]
    · simp at h

theorem endTag?_spells {t rest : Text} {token : Token} (h : endTag? t = some (token, rest)) :
    t = token.text ++ rest := by
  unfold endTag? at h
  split at h
  · simp at h
  · next name afterName found =>
    rw [opened_spells found]
    split at h
    · next gap _ gapRun =>
      obtain ⟨rfl, rfl⟩ := Prod.mk.inj (Option.some.inj h)
      simp [run_spells gapRun, Token.text]
    · simp at h

theorem rawContent_spells (name t : Text) : (rawContent name t).1 ++ (rawContent name t).2 = t := by
  fun_induction rawContent name t with
  | case1 => rfl
  | case2 => exact through_spells _ _
  | case3 _ _ _ ih => simp [ih]

theorem element?_spells {t rest : Text} {token : Token} (h : element? t = some (token, rest)) :
    t = token.text ++ rest := by
  obtain ⟨⟨tag, afterTag⟩, found, eq⟩ := Option.map_eq_some_iff.1 h
  rw [startTag?_spells found]
  simp only at eq
  split at eq
  · obtain ⟨rfl, rfl⟩ := Prod.mk.inj eq
    simp [Token.text, rawContent_spells]
  · obtain ⟨rfl, rfl⟩ := Prod.mk.inj eq
    simp [Token.text]

theorem construct?_spells {opening closing t rest : Text} {wrap : Text → Token} {token : Token}
    (keeps : ∀ text, (wrap text).text = text) (h : construct? opening closing wrap t = some (token, rest)) :
    t = token.text ++ rest := by
  obtain ⟨inner, opened, eq⟩ := Option.map_eq_some_iff.1 h
  obtain ⟨rfl, rfl⟩ := Prod.mk.inj eq
  rw [keeps, List.append_assoc, through_spells]
  exact Text.eq_append_of_after? opened

theorem plain?_spells {t rest : Text} {token : Token} (h : plain? t = some (token, rest)) :
    t = token.text ++ rest := by
  unfold plain? at h
  split at h
  · simp at h
  · obtain ⟨rfl, rfl⟩ := Prod.mk.inj (Option.some.inj h)
    simp [Token.text]

theorem endTag?_form {t rest : Text} {token : Token} (h : endTag? t = some (token, rest)) :
    ∃ name gap, token = .endTag name gap := by
  unfold endTag? at h
  split at h
  · simp at h
  · split at h
    · exact ⟨_, _, (Prod.mk.inj (Option.some.inj h)).1.symm⟩
    · simp at h

theorem element?_form {t rest : Text} {token : Token} (h : element? t = some (token, rest)) :
    (∃ tag, token = .startTag tag) ∨ ∃ tag content, token = .rawElement tag content := by
  obtain ⟨⟨tag, afterTag⟩, _, eq⟩ := Option.map_eq_some_iff.1 h
  simp only at eq
  split at eq
  · exact .inr ⟨_, _, (Prod.mk.inj eq).1.symm⟩
  · exact .inl ⟨_, (Prod.mk.inj eq).1.symm⟩

theorem plain?_form {t rest : Text} {token : Token} (h : plain? t = some (token, rest)) :
    ∃ c s, token = .plain (c :: s) := by
  unfold plain? at h
  split at h
  · simp at h
  · exact ⟨_, _, (Prod.mk.inj (Option.some.inj h)).1.symm⟩

theorem construct?_text_ne_nil {opening closing t rest : Text} {wrap : Text → Token} {token : Token}
    (keeps : ∀ text, (wrap text).text = text) (some_opening : opening ≠ [])
    (h : construct? opening closing wrap t = some (token, rest)) : token.text ≠ [] := by
  obtain ⟨inner, opened, eq⟩ := Option.map_eq_some_iff.1 h
  obtain ⟨rfl, rfl⟩ := Prod.mk.inj eq
  simp [keeps, some_opening]

/-- Reading a piece loses nothing: the piece and the rest spell the text. -/
theorem token?_spells {t rest : Text} {token : Token} (h : token? t = some (token, rest)) :
    t = token.text ++ rest := by
  simp only [token?, Option.orElse_eq_orElse, Option.orElse_eq_or, Option.or_eq_some_iff] at h
  obtain h | ⟨_, h | ⟨_, h | ⟨_, h | ⟨_, h | ⟨_, h | ⟨_, h⟩⟩⟩⟩⟩⟩ := h
  · exact construct?_spells (fun _ => rfl) h
  · exact construct?_spells (fun _ => rfl) h
  · exact construct?_spells (fun _ => rfl) h
  · exact construct?_spells (fun _ => rfl) h
  · exact endTag?_spells h
  · exact element?_spells h
  · exact plain?_spells h

theorem token?_text_ne_nil {t rest : Text} {token : Token} (h : token? t = some (token, rest)) :
    token.text ≠ [] := by
  simp only [token?, Option.orElse_eq_orElse, Option.orElse_eq_or, Option.or_eq_some_iff] at h
  obtain h | ⟨_, h | ⟨_, h | ⟨_, h | ⟨_, h | ⟨_, h | ⟨_, h⟩⟩⟩⟩⟩⟩ := h
  · exact construct?_text_ne_nil (fun _ => rfl) (by simp) h
  · exact construct?_text_ne_nil (fun _ => rfl) (by simp) h
  · exact construct?_text_ne_nil (fun _ => rfl) (by simp) h
  · exact construct?_text_ne_nil (fun _ => rfl) (by simp) h
  · obtain ⟨name, gap, rfl⟩ := endTag?_form h
    simp [Token.text]
  · obtain ⟨tag, rfl⟩ | ⟨tag, content, rfl⟩ := element?_form h <;> simp [Token.text, WrittenTag.text]
  · obtain ⟨c, s, rfl⟩ := plain?_form h
    simp [Token.text]

theorem token?_length {t rest : Text} {token : Token} (h : token? t = some (token, rest)) :
    rest.length < t.length := by
  have some_text := List.length_pos_iff.2 (token?_text_ne_nil h)
  rw [token?_spells h, List.length_append]
  omega

/-- Every text but the empty one begins with a piece: what is nothing else is plain text. -/
theorem token?_isSome {t : Text} (h : t ≠ []) : (token? t).isSome = true := by
  obtain ⟨c, rest, rfl⟩ := List.exists_cons_of_ne_nil h
  simp [token?, Option.orElse_eq_orElse, Option.orElse_eq_or, plain?]

/-- The pieces of a text. -/
def tokens (t : Text) : List Token :=
  match h : token? t with
  | some (token, rest) =>
    have := token?_length h
    token :: tokens rest
  | none => []
termination_by t.length

/-- A document is exactly what its pieces spell. -/
theorem tokens_spells (t : Text) : (tokens t).flatMap Token.text = t := by
  fun_induction tokens t with
  | case1 t token rest h _ ih =>
    rw [List.flatMap_cons, ih]
    exact (token?_spells h).symm
  | case2 t h =>
    cases t with
    | nil => rfl
    | cons c t =>
      have := token?_isSome (t := c :: t) (by simp)
      rw [h] at this
      simp at this

end Scan

end MarkupTemplates
