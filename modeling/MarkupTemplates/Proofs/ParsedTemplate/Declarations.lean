import MarkupTemplates.Proofs.ParsedTemplate.Abstraction
import MarkupTemplates.Proofs.ParsedTemplate.BodyTokens

namespace MarkupTemplates

open CommentDirective (isNameChar read?)
open MacroBody (attributeQuoted declaringComment)

/-- Attributes in a row have the names and values that they are written with. -/
theorem readings_locatedInRow (start : Nat) (list : List WrittenAttribute) :
    (locatedInRow start list).map (fun a => (a.name, a.value)) = list.map WrittenAttribute.reading := by
  induction list generalizing start with
  | nil => rfl
  | cons a list ih =>
    rw [locatedInRow, List.map_cons, ih]
    rfl

/-- A piece that begins with a legible start tag is known by it. -/
theorem Scan.exists_token?_of_tag {tag : WrittenTag} (legible : tag.Legible) (rest : Text) :
    ∃ token more, token? (tag.text ++ rest) = some (token, more) ∧ token.tag? = some tag := by
  rw [token?_startTag legible, element?, startTag?_text legible, Option.map_some]
  simp only
  split <;> exact ⟨_, _, rfl, rfl⟩

namespace WrittenTag

variable {tag : WrittenTag} {before after : List WrittenAttribute} {name p : Text}

/-- The text of a start tag with parameters declared between these attributes. -/
def textDeclaring (tag : WrittenTag) (before after : List WrittenAttribute) (name parameters : Text) : Text :=
  '<' :: tag.name ++ before.flatMap WrittenAttribute.text ++
    (' ' :: name ++ '=' :: '"' :: attributeQuoted parameters ++ ['"']) ++
    (after.flatMap WrittenAttribute.text ++ tag.ending)

theorem text_redeclared_eq : (tag.redeclared before [] name p after).text = tag.textDeclaring before after name p := by
  rw [text_redeclared, List.append_nil]
  simp only [textDeclaring, WrittenAttribute.declaring, WrittenAttribute.text, Assignment.text, WrittenValue.text,
    List.cons_append, List.nil_append, List.append_assoc]

theorem Legible.declaring (legible : tag.Legible) (split : tag.attributes = before ++ after)
    (word : IsAttributeWord name) : (tag.redeclared before [] name p after).Legible := by
  have own : (WrittenAttribute.declaring name p).Legible := WrittenAttribute.legible_declaring word.1 word.2
  refine legible.inserted own rfl ?_ ?_
  · rw [split]
    exact List.subset_append_left before after
  · rw [split]
    exact List.suffix_append before after

end WrittenTag

namespace MacroBody

variable {word p : Text}

theorem declaringComment_eq (word p : Text) :
    ∃ mark, declaringComment word p = ("<!--" : Text) ++ ((word ++ '=' :: mark :: (p ++ [mark])) ++ commentEnd) := by
  obtain ⟨mark, _, quoted⟩ := commentQuoted_eq p
  refine ⟨mark, ?_⟩
  simp only [declaringComment, quoted, commentEnd, List.append_assoc, List.cons_append]

/-- The comment that declares parameters is one piece just if they do not hold the mark that ends a comment. -/
theorem token?_declaringComment_iff (letters : ∀ c ∈ word, isAttributeNameChar c = true) :
    (∀ rest, Scan.token? (declaringComment word p ++ rest) = some (.comment (declaringComment word p), rest)) ↔
      ¬ commentEnd <:+: p := by
  refine ⟨fun read inside => ?_, fun none rest => token?_declaringComment letters none rest⟩
  obtain ⟨mark, spelled⟩ := declaringComment_eq word p
  -- the piece would have ended with the parameters
  refine Scan.token?_soundComment (read []) _ spelled (inside.trans ⟨word ++ ['=', mark], [mark], ?_⟩)
  simp only [List.append_assoc, List.cons_append, List.nil_append]

end MacroBody

namespace CommentDirective

theorem isAttributeNameChar_of_isNameChar {c : Char} (letter : isNameChar c = true) : isAttributeNameChar c = true := by
  simp only [isNameChar, Bool.or_eq_true, decide_eq_true_eq] at letter
  rcases letter with lower | rfl
  · obtain ⟨low, high⟩ := Bool.and_eq_true_iff.mp lower
    have range : 97 ≤ c.toNat ∧ c.toNat ≤ 122 :=
      ⟨UInt32.le_iff_toNat_le.mp (of_decide_eq_true low), UInt32.le_iff_toNat_le.mp (of_decide_eq_true high)⟩
    have shown : isBlank c = false := by
      simp only [isBlank, Bool.or_eq_false_iff, Bool.and_eq_false_iff, decide_eq_false_iff_not]
      omega
    have other (d : Char) (outside : d.isLower = false) : c ≠ d := by
      rintro rfl
      rw [outside] at lower
      cases lower
    simp only [isAttributeNameChar, shown, Bool.not_false, Bool.and_eq_true, bne_iff_ne, other '"' rfl, other '\'' rfl,
      other '<' rfl, other '>' rfl, other '/' rfl, other '=' rfl, ne_eq, not_false_eq_true, and_self]
  · decide

/-- No value of a comment holds the mark that ends a comment. -/
theorem unended_value {source comment : Text} {start : Nat} {d : CommentDirective}
    (member : .comment comment ∈ Scan.tokens source) (read : read? start comment = some d) :
    ¬ commentEnd <:+: d.value := by
  obtain ⟨inner, spelled, inside⟩ := read?_inner read
  exact fun ended => Scan.tokens_soundComment source _ member inner spelled (ended.trans inside)

end CommentDirective

/-- Parameters are read back as they are from what declares them. An attribute can declare any parameters, wherever
it stands in a start tag. A comment can declare just those that do not hold the mark that ends a comment, and no value
of a comment does. -/
theorem parameters_read_back (p : Text) :
    ('"' ∉ attributeQuoted p ∧ (attributeQuoted p).resolved = p) ∧
    (∀ (source more : Text) (tag : WrittenTag) (before after : List WrittenAttribute) (name : Text),
      Scan.startTag? source = some (tag, more) → tag.attributes = before ++ after → IsAttributeWord name →
      ∀ (rest : Text) (start : Nat), ∃ written : WrittenTag,
        Scan.startTag? (tag.textDeclaring before after name p ++ rest) = some (written, rest) ∧
        (∃ token behind, Scan.token? (tag.textDeclaring before after name p ++ rest) = some (token, behind) ∧
          token.tag? = some written) ∧
        (written.located start).attributes.map (fun a => (a.name, a.value)) =
          before.map WrittenAttribute.reading ++ (name, some p) :: after.map WrittenAttribute.reading) ∧
    (∀ name : Text, name ≠ [] → (∀ c ∈ name, isNameChar c = true) →
      ((∀ rest, Scan.token? (declaringComment name p ++ rest) = some (.comment (declaringComment name p), rest)) ↔
        ¬ commentEnd <:+: p) ∧
      ∀ start, read? start (declaringComment name p) =
        some { name, value := p, nameStart := start + 4, valueStart := start + 6 + name.byteSize }) ∧
    ∀ (source comment : Text) (start : Nat) (d : CommentDirective), .comment comment ∈ Scan.tokens source →
      read? start comment = some d → ¬ commentEnd <:+: d.value := by
  refine ⟨⟨MacroBody.quote_not_mem_attributeQuoted p, MacroBody.resolved_attributeQuoted p⟩, ?_, ?_, ?_⟩
  · intro source more tag before after name read split word rest start
    have legible : (tag.redeclared before [] name p after).Legible := (Scan.startTag?_legible read).declaring split word
    obtain ⟨token, behind, first, tagged⟩ := Scan.exists_token?_of_tag legible rest
    have own := Scan.startTag?_text legible rest
    rw [WrittenTag.text_redeclared_eq] at first own
    exact ⟨_, own, ⟨token, behind, first, tagged⟩,
      (readings_locatedInRow _ _).trans WrittenTag.readings_redeclared⟩
  · intro name some_name letters
    exact ⟨MacroBody.token?_declaringComment_iff fun c member =>
        CommentDirective.isAttributeNameChar_of_isNameChar (letters c member),
      fun start => MacroBody.read?_declaringComment some_name letters start p⟩
  · intro source comment start d member read
    exact CommentDirective.unended_value member read

/-- Parameters with quotation marks of both kinds, with a text like a reference in them and dashes at their end. -/
theorem parameters_read_back_of_both_marks :
    let p : Text := "\"b\" & 'c' &lt; --"
    let id : WrittenAttribute := ⟨[' '], "id", some ⟨[], [], .bare "x"⟩⟩
    let title : WrittenAttribute := ⟨['\n'], "title", none⟩
    let tag : WrittenTag := ⟨"script", [id, title], [], false⟩
    let text : Text := "<script id=x v=\"&quot;b&quot; &amp; 'c' &amp;lt; --\"\ntitle>"
    let comment : Text := "<!--t:v=\"\"b\" & 'c' &lt; --\"-->"
    let behind : Text := "</script>-->"
    let readings : List (Text × Option Text) := [("id", some ['x']), ("v", some p), ("title", none)]
    Scan.startTag? "<script id=x\ntitle>" = some (tag, []) ∧ tag.attributes = [id] ++ [title] ∧ IsAttributeWord "v" ∧
      (∃ written, Scan.startTag? (text ++ behind) = some (written, behind) ∧
        (written.located 0).attributes.map (fun a => (a.name, a.value)) = readings) ∧
      ¬ commentEnd <:+: p ∧ Scan.token? (comment ++ behind) = some (.comment comment, behind) ∧
      read? 0 comment = some ⟨"t:v", p, 4, 9⟩ := by
  intro p id title tag text comment behind readings
  obtain ⟨_, tags, comments, _⟩ := parameters_read_back p
  have read : Scan.startTag? "<script id=x\ntitle>" = some (tag, []) := by decide +kernel
  have word : IsAttributeWord "v" := by decide
  have letters : ∀ c ∈ ("t:v" : Text), isNameChar c = true := List.all_eq_true.mp rfl
  have unended : ¬ commentEnd <:+: p := by decide
  obtain ⟨written, own, _, located⟩ := tags _ _ tag [id] [title] "v" read rfl word behind 0
  obtain ⟨one, back⟩ := comments "t:v" (by decide) letters
  have known : [id].map WrittenAttribute.reading ++ (("v" : Text), some p) :: [title].map WrittenAttribute.reading =
      readings := by
    decide +kernel
  exact ⟨read, rfl, word, ⟨written, own, located.trans known⟩, unended, one.mpr unended behind, back 0⟩

end MarkupTemplates
