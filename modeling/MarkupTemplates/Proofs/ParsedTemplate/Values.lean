import MarkupTemplates.Proofs.Directive.CommentForm
import MarkupTemplates.Proofs.ParsedTemplate.Attributes
import MarkupTemplates.Proofs.ParsedTemplate.Extraction
import MarkupTemplates.Proofs.Text.Trim

namespace MarkupTemplates

open CommentDirective (isQuote)

/-- The value of the directive is written in the source at the byte that it is said to begin at: just
behind the quotation mark of an attribute, where there are no quotation marks, or behind the blanks that
the value of a comment begins with. -/
inductive ValueWritten (source : Text) (directive : Directive) : Prop
  | quoted {start : Nat} {mark : Char} {content : Text} :
      isQuote mark = true → mark ∉ content → Stands source start (mark :: (content ++ [mark])) →
      directive.valueStart = start + 1 → directive.value = Text.trim (Text.resolved content) →
      ValueWritten source directive
  | bare {content : Text} :
      content ≠ [] → (∀ c ∈ content, isBareValueChar c = true) →
      Stands source directive.valueStart content → directive.value = Text.trim (Text.resolved content) →
      ValueWritten source directive
  | comment {start : Nat} {mark mark' : Char} {blanks content : Text} :
      isQuote mark = true → isQuote mark' = true →
      Stands source start (mark :: (blanks ++ (content ++ [mark']))) →
      (∀ c ∈ blanks, isBlank c = true) → content.trimStart = content →
      directive.valueStart = start + 1 + blanks.byteSize → directive.value = content.trimEnd →
      ValueWritten source directive

namespace CommentDirective

/-- A directive in a comment has its name behind the blanks that the comment begins with, and its value between
two quotation marks. -/
theorem read?_parts {start : Nat} {comment : Text} {found : CommentDirective}
    (h : read? start comment = some found) :
    ∃ gap sign mark mark' after,
      comment = (("<!--" : Text) ++ (gap ++ (found.name ++ sign))) ++ mark :: (found.value ++ mark' :: after) ∧
      isQuote mark = true ∧ isQuote mark' = true ∧
      found.nameStart = start + Text.byteSize "<!--" + Text.byteSize gap ∧
      found.valueStart = start + Text.byteSize (("<!--" : Text) ++ (gap ++ (found.name ++ sign))) + 1 := by
  obtain ⟨w, legible, rfl, rfl⟩ := read?_eq_some_iff.mp h
  refine ⟨w.gap, w.before ++ '=' :: w.after, w.mark, w.lastMark, w.tail ++ ("-->" : Text), ?_, legible.mark,
    legible.lastMark, ?_, ?_⟩
  · rw [WrittenComment.text, WrittenComment.head]
    rfl
  · rw [WrittenComment.reading, Text.byteSize_append, Nat.add_assoc]
  · show start + Text.byteSize (w.head ++ [w.mark]) = start + Text.byteSize w.head + 1
    rw [Text.byteSize_append, Text.byteSize_cons, utf8Size_of_isQuote legible.mark]
    rfl

/-- The value of a directive in a comment stands between two quotation marks. -/
theorem read?_written {start : Nat} {comment : Text} {found : CommentDirective}
    (h : read? start comment = some found) :
    ∃ before mark mark' after, comment = before ++ mark :: (found.value ++ mark' :: after) ∧
      isQuote mark = true ∧ isQuote mark' = true ∧ found.valueStart = start + Text.byteSize before + 1 := by
  obtain ⟨gap, sign, mark, mark', after, split, quote, quote', _, place⟩ := read?_parts h
  exact ⟨_, mark, mark', after, split, quote, quote', place⟩

end CommentDirective

/-- A text is the blanks that it begins with and what is left without them. -/
theorem trimStart_split (t : Text) :
    ∃ blanks, t = blanks ++ t.trimStart ∧ (∀ c ∈ blanks, isBlank c = true) ∧
      t.trimStart.trimStart = t.trimStart := by
  refine ⟨t.takeWhile isBlank, List.takeWhile_append_dropWhile.symm, Scan.run_inside rfl, ?_⟩
  exact dropWhile_idem (List.prefix_refl _)

theorem commentRole_statement {names : DirectiveNames} {source : Text} {span : Span} {opened : Option OpenMacro}
    {directive : Directive} (role : commentRole names source opened span = .statement directive) :
    ∃ found, CommentDirective.read? span.start (source.at span) = some found ∧
      directive.value = found.value.trimStart.trimEnd ∧
      directive.valueStart = found.valueStart + (found.value.byteSize - found.value.trimStart.byteSize) ∧
      directive.name = found.name ∧ directive.start = found.nameStart := by
  unfold commentRole at role
  split at role
  · exact absurd role nofun
  · next found read =>
    refine ⟨found, read, ?_⟩
    split at role
    · exact absurd role nofun
    · split at role <;> exact absurd role nofun
    · exact absurd role nofun
    · exact absurd role nofun
    · obtain rfl := CommentRole.statement.inj role
      exact ⟨rfl, rfl, rfl, rfl⟩
    · exact absurd role nofun

/-- The value of a statement in a comment is where it is said to be. -/
theorem valueWritten_of_comment {names : DirectiveNames} {source : Text} {span : Span}
    {opened : Option OpenMacro} {directive : Directive} (within : span.Within source)
    (role : commentRole names source opened span = .statement directive) : ValueWritten source directive := by
  obtain ⟨found, read, value, valueStart, _⟩ := commentRole_statement role
  obtain ⟨before, mark, mark', after, split, quote, quote', start⟩ := CommentDirective.read?_written read
  obtain ⟨blanks, written, blank, rest⟩ := trimStart_split found.value
  have size : found.value.byteSize = blanks.byteSize + found.value.trimStart.byteSize :=
    (congrArg Text.byteSize written).trans (Text.byteSize_append ..)
  have stands := within.stands
  have pieces : source.at span =
      before ++ (mark :: (blanks ++ (found.value.trimStart ++ [mark'])) ++ after) := by
    refine split.trans ((congrArg (fun value => before ++ mark :: (value ++ mark' :: after)) written).trans ?_)
    simp only [List.append_assoc, List.cons_append, List.nil_append]
  rw [pieces] at stands
  exact .comment quote quote' stands.right.left blank rest (by omega) value

/-- The value of an attribute is where it is said to be. -/
theorem valueWritten_of_attribute {source : Text} {row children : List Node} {tag : Tag} {stop : Nat}
    {a : Attribute} (kind : DirectiveKind) (siblings : Siblings source.nodes row)
    (member : .element tag stop children ∈ row) (inside : a ∈ tag.attributes)
    (hasValue : a.value.isSome = true) : ValueWritten source (a.statement kind) := by
  obtain ⟨own, start, legible, stands, rfl⟩ := written_attribute siblings member inside
  obtain ⟨gap, name, assigned⟩ := own
  cases assigned with
  | none => exact absurd hasValue nofun
  | some assignment =>
    obtain ⟨before, after, value⟩ := assignment
    have known := (legible.assignment _ rfl).value
    have pieces : WrittenAttribute.text ⟨gap, name, some ⟨before, after, value⟩⟩ =
        (gap ++ name ++ before ++ '=' :: after) ++ value.text := by
      simp only [WrittenAttribute.text, Assignment.text, List.append_assoc, List.cons_append]
    rw [pieces] at stands
    have size : Text.byteSize (gap ++ name ++ before ++ '=' :: after) =
        Text.byteSize gap + Text.byteSize name + Text.byteSize before + 1 + Text.byteSize after := by
      simp only [Text.byteSize_append, Text.byteSize_cons, show '='.utf8Size = 1 from rfl]
      omega
    have here := stands.right
    rw [size] at here
    cases value with
    | quoted mark content =>
      obtain ⟨quote, without⟩ := known
      have isMark : isQuote mark = true := by simpa [isQuote] using quote
      refine .quoted isMark without here ?_ rfl
      simp only [Attribute.statement, WrittenAttribute.located, Option.map_some, Option.getD_some,
        WrittenValue.indent]
      omega
    | bare content =>
      obtain ⟨some_content, inside⟩ := known
      refine .bare some_content inside ?_ rfl
      have start_eq : (Attribute.statement kind (WrittenAttribute.located start
          ⟨gap, name, some ⟨before, after, .bare content⟩⟩)).valueStart =
          start + (Text.byteSize gap + Text.byteSize name + Text.byteSize before + 1 + Text.byteSize after) := by
        simp only [Attribute.statement, WrittenAttribute.located, Option.map_some, Option.getD_some,
          WrittenValue.indent]
        omega
      rw [start_eq]
      exact here

/-- A duty that stands for a directive with a value. -/
def Duty.hasValue : Duty → Bool
  | statement _ _ a => a.value.isSome
  | _ => true

theorem Duty.valueWritten {names : DirectiveNames} {source : Text} {duty : Duty} {directive : Directive}
    (here : duty.From names source.nodes) (asks : duty.requests names source = [.statement directive])
    (hasValue : duty.hasValue = true) : ValueWritten source directive := by
  rcases asks_statement asks with ⟨tag, kind, a, rfl, rfl⟩ | ⟨opened, span, nodes, rfl, role⟩
  · obtain ⟨_, _, _, siblings, member, statement⟩ := here
    exact valueWritten_of_attribute kind siblings member
      ((statementsOf_sublist names tag).subset (List.mem_map.mpr ⟨_, statement, rfl⟩)) hasValue
  · obtain ⟨before, siblings, _⟩ := here
    obtain ⟨_, _, row⟩ := (placed_nodes source).siblings siblings
    obtain ⟨_, _, _, _, own⟩ := row.of_mem (List.mem_append_right _ List.mem_cons_self)
    cases own with
    | comment _ atStart forward atStop _ => exact valueWritten_of_comment ⟨atStart, atStop, forward⟩ role

end MarkupTemplates
