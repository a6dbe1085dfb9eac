import MarkupTemplates.Proofs.Markup.Quoting
import MarkupTemplates.Proofs.Markup.Spans
import MarkupTemplates.Proofs.ParsedTemplate.BodyTokens
import MarkupTemplates.Proofs.ParsedTemplate.Directives
import MarkupTemplates.Proofs.Text.Trim

namespace MarkupTemplates

/-- The value of the attribute is written without an ampersand, so without character references. -/
def Attribute.Literal (source : Text) (a : Attribute) : Prop :=
  ∀ start, a.valueStart = some start → '&' ∉ source.at ⟨start, a.span.stop⟩

theorem Text.resolved_of_plain {t : Text} (plain : '&' ∉ t) : t.resolved = t := by
  have all := Text.resolved_past plain []
  rwa [Text.resolved, List.append_nil] at all

variable {source : Text}

theorem Stands.of_isPrefix {s t : Text} {start : Nat} (stands : Stands source start t) (part : s <+: t) :
    Stands source start s := by
  obtain ⟨more, rfl⟩ := part
  exact stands.left

/-- A value without its blanks stands behind those that it begins with. -/
theorem Stands.behind_blanks {value : Text} {start : Nat} (stands : Stands source start value) :
    Stands source (start + Text.byteSize (value.takeWhile isBlank)) value.trim := by
  rw [← List.takeWhile_append_dropWhile (p := isBlank) (l := value)] at stands
  exact stands.right.of_isPrefix value.trim_isPrefix

/-- Where a value stands it also stands without its blanks, unless it begins with one and is not all blank. -/
theorem Stands.trim_iff {value : Text} {start : Nat} (stands : Stands source start value) :
    Stands source start value.trim ↔ value.trim = [] ∨ ∀ c ∈ value.head?, isBlank c = false := by
  constructor
  · intro trimmed
    cases here : value.trim with
    | nil => exact .inl rfl
    | cons d rest =>
      refine .inr fun c first => ?_
      obtain ⟨more, rfl⟩ := List.head?_eq_some_iff.mp first
      rw [here] at trimmed
      rw [Stands.unique (stands.of_isPrefix ⟨more, rfl⟩) (trimmed.of_isPrefix ⟨rest, rfl⟩)]
      exact Text.head_of_trim here
  · rintro (none | proper)
    · rw [none]
      exact stands.of_isPrefix List.nil_prefix
    · have part := value.trim_isPrefix
      rw [Text.trimStart_of_head proper] at part
      exact stands.of_isPrefix part

/-- A statement in a comment says where its name and its value stand: a value that begins with blanks stands
behind them. -/
theorem stands_of_commentRole {names : DirectiveNames} {span : Span} {opened : Option OpenMacro}
    {directive : Directive} (within : span.Within source)
    (role : commentRole names source opened span = .statement directive) :
    Stands source directive.start directive.name ∧ Stands source directive.valueStart directive.value := by
  obtain ⟨found, read, value, valueStart, name, start⟩ := commentRole_statement role
  obtain ⟨gap, sign, mark, mark', after, split, quote, _, nameStart, place⟩ := CommentDirective.read?_parts read
  have stands := within.stands
  rw [split] at stands
  constructor
  · have named := stands.left.right.right.left
    rwa [← nameStart, ← start, ← name] at named
  · have inside : Stands source found.valueStart found.value := by
      have behind := stands.right
      rw [← List.singleton_append] at behind
      have valued := behind.right.left
      rwa [Text.byteSize_cons, CommentDirective.utf8Size_of_isQuote quote, Text.byteSize_nil, ← place] at valued
    have size : found.value.byteSize =
        Text.byteSize (found.value.takeWhile isBlank) + found.value.trimStart.byteSize := by
      rw [← Text.byteSize_append]
      exact congrArg Text.byteSize List.takeWhile_append_dropWhile.symm
    have behind : directive.valueStart = found.valueStart + Text.byteSize (found.value.takeWhile isBlank) := by omega
    rw [value, behind]
    exact inside.behind_blanks

/-- Without character references the value of an attribute is what is written from where it begins. -/
theorem Attribute.Sound.stands_value {a : Attribute} {value : Text} (sound : a.Sound source)
    (literal : a.Literal source) (assigned : a.value = some value) :
    ∃ start, a.valueStart = some start ∧ Stands source start value := by
  obtain ⟨start, place, _, stands⟩ := sound.assigned value assigned
  refine ⟨start, place, ?_⟩
  have plain := literal start place
  cases stands with
  | @quoted before mark content quote _ stands begins ends resolved =>
    have one : Text.byteSize [mark] = 1 := by rcases quote with rfl | rfl <;> rfl
    have behind := (show Stands source before ([mark] ++ (content ++ [mark])) from stands).right
    rw [one, ← begins] at behind
    have written := behind.slice
    rw [Text.byteSize_append, one, ← Nat.add_assoc, ← ends] at written
    rw [Text.at, written] at plain
    rw [Text.resolved_of_plain fun member => plain (List.mem_append_left _ member)] at resolved
    exact resolved ▸ behind.left
  | @bare content _ _ stands ends resolved =>
    have written := stands.slice
    rw [← ends] at written
    rw [Text.at, written] at plain
    rw [Text.resolved_of_plain plain] at resolved
    exact resolved ▸ stands

/-- The name of a statement stands where the statement says. So does its value in a comment. In an attribute
written without character references the value stands behind the blanks that the attribute's value begins with,
while the statement names the place of the first of them. -/
theorem statement_places {Compiled : Type} {parser : Parser Compiled} {stream : Bool} {depth : Nat}
    {resource : Resource} {requests : List Request} {w : Walk Compiled} {duty : Duty} {rest : List Duty}
    {directive : Directive}
    (run : Walk.Runs (parser.job stream depth resource) {} [.row none resource.source.nodes] requests w
      (duty :: rest))
    (asks : duty.requests parser.names resource.source = [.statement directive]) :
    Stands resource.source directive.start directive.name ∧
      (∀ opened nodes, duty = .row opened nodes →
        Stands resource.source directive.valueStart directive.value) ∧
      ∀ tag kind a written, duty = .statement tag kind a → a.value = some written → a.Literal resource.source →
        Stands resource.source (directive.valueStart + Text.byteSize (written.takeWhile isBlank))
            directive.value ∧
          (Stands resource.source directive.valueStart directive.value ↔
            directive.value = [] ∨ ∀ c ∈ written.head?, isBlank c = false) := by
  have here := run.from_roots duty List.mem_cons_self
  rcases Duty.asks_statement asks with ⟨tag, kind, a, rfl, rfl⟩ | ⟨opened, span, nodes, rfl, role⟩
  · obtain ⟨row, stop, children, siblings, member, statement⟩ := here
    have sound := (element_sound siblings member).attributes a (mem_attributes_of_statement statement)
    refine ⟨sound.name, fun _ _ => Duty.noConfusion, ?_⟩
    rintro _ _ _ written ⟨⟩ assigned literal
    obtain ⟨start, place, stands⟩ := sound.stands_value literal assigned
    have value : (a.statement kind).value = written.trim := by rw [Attribute.statement, assigned, Option.getD_some]
    have valueStart : (a.statement kind).valueStart = start := by rw [Attribute.statement, place, Option.getD_some]
    rw [value, valueStart]
    exact ⟨stands.behind_blanks, stands.trim_iff⟩
  · obtain ⟨before, siblings, _⟩ := here
    obtain ⟨_, _, row⟩ := (placed_nodes resource.source).siblings siblings
    obtain ⟨_, _, _, _, own⟩ := row.of_mem (List.mem_append_right _ List.mem_cons_self)
    cases own with
    | comment _ atStart forward atStop _ =>
      obtain ⟨named, valued⟩ := stands_of_commentRole ⟨atStart, atStop, forward⟩ role
      exact ⟨named, fun _ _ _ => valued, fun _ _ _ _ => Duty.noConfusion⟩

/-- A condition with a blank behind its value, and within it an alternative with one in front. -/
theorem statement_places_of_both_forms :
    let source : Text := "<p if='é '><!-- else = ' y' --></p>"
    let job := Parser.echo.job false 0 { name := "t", source }
    let a : Attribute := ⟨"if", some "é ", ⟨3, 11⟩, some 7⟩
    let tag : Tag := ⟨"p", [a], ⟨0, 12⟩⟩
    let condition : Directive := ⟨.ifTrue, "if", "é", 3, 7⟩
    let alternative : Directive := ⟨.otherwise, "else", "y", 17, 26⟩
    (∃ requests w rest,
        Walk.Runs job {} [.row none source.nodes] requests w (.statement tag .ifTrue a :: rest)) ∧
      (Duty.statement tag .ifTrue a).requests Parser.echo.names source = [.statement condition] ∧
      a.Literal source ∧ Stands source 3 "if" ∧ Stands source 7 "é" ∧
      (∃ requests w rest,
        Walk.Runs job {} [.row none source.nodes] requests w (.row none [.comment ⟨12, 32⟩] :: rest)) ∧
      (Duty.row none [.comment ⟨12, 32⟩]).requests Parser.echo.names source = [.statement alternative] ∧
      Stands source 17 "else" ∧ Stands source 26 "y" := by
  intro source job a tag condition alternative
  have nodes : source.nodes = [.element tag 36 [.comment ⟨12, 32⟩]] := by decide +kernel
  have toCondition : ∃ requests w rest,
      Walk.Runs job {} [.row none source.nodes] requests w (.statement tag .ifTrue a :: rest) := by
    rw [nodes]
    exact ⟨_, _, _, .step rfl .done⟩
  have toAlternative : ∃ requests w rest,
      Walk.Runs job {} [.row none source.nodes] requests w (.row none [.comment ⟨12, 32⟩] :: rest) := by
    rw [nodes]
    exact ⟨_, _, _, .step rfl (.step rfl .done)⟩
  have asksCondition : (Duty.statement tag .ifTrue a).requests Parser.echo.names source =
      [.statement condition] := by decide +kernel
  have asksAlternative : (Duty.row none [.comment ⟨12, 32⟩]).requests Parser.echo.names source =
      [.statement alternative] := by decide +kernel
  have literal : a.Literal source := by
    rintro start ⟨⟩
    decide +kernel
  obtain ⟨_, _, _, run⟩ := id toCondition
  obtain ⟨_, _, _, run'⟩ := id toAlternative
  obtain ⟨named, _, valued⟩ := statement_places run asksCondition
  obtain ⟨named', valued', _⟩ := statement_places run' asksAlternative
  exact ⟨toCondition, asksCondition, literal, named, (valued _ _ _ _ rfl rfl literal).1, toAlternative,
    asksAlternative, named', valued' _ _ rfl⟩

/-- A blank stands where the statement says that its value does, and the value one byte behind it. -/
theorem value_behind_named_place :
    let source : Text := "<p if=\" x\">y</p>"
    let job := Parser.echo.job false 0 { name := "t", source }
    let a : Attribute := ⟨"if", some " x", ⟨3, 10⟩, some 7⟩
    let tag : Tag := ⟨"p", [a], ⟨0, 11⟩⟩
    let directive : Directive := ⟨.ifTrue, "if", "x", 3, 7⟩
    (∃ requests w rest,
        Walk.Runs job {} [.row none source.nodes] requests w (.statement tag .ifTrue a :: rest)) ∧
      (Duty.statement tag .ifTrue a).requests Parser.echo.names source = [.statement directive] ∧
      a.Literal source ∧ Stands source 8 directive.value ∧
      ¬ Stands source directive.valueStart directive.value := by
  intro source job a tag directive
  have nodes : source.nodes = [.element tag 16 []] := by decide +kernel
  refine ⟨?_, by decide +kernel, ?_, ⟨"<p if=\" ", "\">y</p>", by decide +kernel, by decide +kernel⟩, fun stands => ?_⟩
  · rw [nodes]
    exact ⟨_, _, _, .step rfl .done⟩
  · rintro start ⟨⟩
    decide +kernel
  · have blank : Stands source 7 [' '] := ⟨"<p if=\"", "x\">y</p>", by decide +kernel, by decide +kernel⟩
    exact absurd (blank.unique stands) (by decide)

end MarkupTemplates
