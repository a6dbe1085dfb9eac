import MarkupTemplates.Proofs.ParsedTemplate.CheckedWalk

namespace MarkupTemplates

namespace Parser

variable {Compiled : Type}

/-- Parses a source with every position looked up that a step measures from or cuts at. It comes to nothing if one
of them is not there, or if macros are nested more than `depth` deep. -/
def checkedWithin (parser : Parser Compiled) (stream : Bool) : Nat → Resource → Option (Parsed Compiled)
  | 0, _ => none
  | depth + 1, resource => do
    let job := parser.job stream depth resource
    match ← (Walk.checkedSiblings job (parser.checkedWithin stream depth) none {} resource.source.nodes).run with
    | .error failure => return (failure.events, .error failure.error)
    | .ok w =>
      let code ← w.edits.checkedApply resource.source
      return (w.events ++ [.parsed resource.name w.directives w.macros.length],
        .ok { resource, stream, code, symbols := w.symbols, macros := w.macros, directives := w.directives })

def checkedParse (parser : Parser Compiled) (stream : Bool) (resource : Resource) : Option (Parsed Compiled) :=
  parser.checkedWithin stream (parser.depthBound resource) resource

def checkedCompile (parser : Parser Compiled) (stream : Bool) (resource : Resource) :
    Option (List Event × Except ParseError (ParsedTemplate Compiled × Compiled)) := do
  match ← parser.checkedParse stream resource with
  | (events, .error e) => return (events, .error e)
  | (events, .ok template) =>
    match parser.compiler.compile template with
    | .ok compiled => return (events, .ok (template, compiled))
    | .error e =>
      let error ← ParseError.checkedLocate (.invalidTemplate resource.name e.message) resource (e.offset.getD 0)
      return (events, .error error)

variable {parser : Parser Compiled} {stream : Bool}

/-- The depth of nesting bounds the recursion: the body of a macro declares fewer macros than its source. -/
theorem checkedWithin_eq (word : IsAttributeWord (parser.names.name .var)) {depth : Nat} {resource : Resource}
    (deep : resource.source.declarations parser.names < depth) :
    parser.checkedWithin stream depth resource = some (parser.parseWithin stream depth resource) := by
  induction depth generalizing resource with
  | zero => exact absurd deep (Nat.not_lt_zero _)
  | succ depth ih =>
    have bodies : ∀ head body, HoldsMacro parser.names resource.source head body →
        parser.checkedWithin stream depth (resource.extract head.name body.text) =
          some (parser.parseWithin stream depth (resource.extract head.name body.text)) := fun head body held =>
      ih (Nat.lt_of_lt_of_le (held.declarations_lt word) (Nat.le_of_lt_succ deep))
    have walked : Walk.checkedSiblings (parser.job stream depth resource) (parser.checkedWithin stream depth) none {}
        resource.source.nodes = .of (Walk.siblings (parser.job stream depth resource) none {} resource.source.nodes) :=
      Walk.checkedSiblings_eq bodies Duty.Arises.roots
    rw [checkedWithin, parseWithin_succ, walked]
    cases result : Walk.siblings (parser.job stream depth resource) none {} resource.source.nodes with
    | error failure => rfl
    | ok w =>
      have applied : w.edits.checkedApply resource.source = some (w.edits.apply resource.source) :=
        Walk.checkedApply_edits result
      show (w.edits.checkedApply resource.source >>= _) = _
      rw [applied]
      rfl

theorem checkedParse_eq (word : IsAttributeWord (parser.names.name .var)) (resource : Resource) :
    parser.checkedParse stream resource = some (parser.parse stream resource) :=
  checkedWithin_eq word (parser.declarations_lt_depthBound resource)

theorem checkedCompile_eq (word : IsAttributeWord (parser.names.name .var)) (resource : Resource) :
    parser.checkedCompile stream resource = some (parser.compile stream resource) := by
  rw [checkedCompile, checkedParse_eq word, compile]
  obtain ⟨events, result⟩ := parser.parse stream resource
  cases result with
  | error e => rfl
  | ok template =>
    simp only [Option.bind_eq_bind, Option.bind_some]
    cases parser.compiler.compile template with
    | error e =>
      simp only [ParseError.checkedLocate_eq]
      rfl
    | ok compiled => rfl

end Parser

/-- No source makes the parser look at a position that is not there. It does not while it reads the source, in
the values of attributes and in the content of raw elements; nor on its walk, where it measures spans, cuts
comments, macros and their declarations out of the source and traces errors back to it, at any depth of macros in
macros and wherever the dialect or the compiler say that an error is; nor where it changes the source, or reports
an error. All differences are of positions in order, and all texts are cut at the boundaries of characters. -/
theorem parse_without_fault {Compiled : Type} (parser : Parser Compiled)
    (word : IsAttributeWord (parser.names.name .var)) :
    (∀ value, Text.checkedResolved (value.length + 1) value = some value.resolved) ∧
    (∀ name content, Scan.checkedRawContent name content = some (Scan.rawContent name content)) ∧
    ∀ stream resource,
      parser.checkedParse stream resource = some (parser.parse stream resource) ∧
      parser.checkedCompile stream resource = some (parser.compile stream resource) :=
  ⟨fun _ => Text.checkedResolved_eq (Nat.lt_succ_self _), Scan.checkedRawContent_eq,
    fun _ resource => ⟨Parser.checkedParse_eq word resource, Parser.checkedCompile_eq word resource⟩⟩

/-- A macro in an element, with a statement that is refused at a byte inside of its value. The error is reported at
the character that the byte is a part of, where the source has it. -/
theorem parse_without_fault_inside_character :
    let parser : Parser Unit :=
      ⟨.default, ⟨fun directive _ => .error ⟨"refused", some (directive.valueStart + 1)⟩, id, id⟩, ⟨fun _ => .ok ()⟩⟩
    let resource : Resource := { name := "page", source := "<p>ü<b macro='m' if='é'/></p>" }
    ∃ events e, parser.checkedParse false resource = some (events, .error e) ∧ e.offset = 22 := by
  intro parser resource
  obtain ⟨_, _, parsing⟩ := parse_without_fault parser DirectiveNames.isAttributeWord_var
  have place : (match (parser.parse false resource).2 with
      | .error e => some e.offset
      | .ok _ => none) = some 22 := by decide +kernel
  rw [(parsing false resource).1]
  generalize parser.parse false resource = parsed at place ⊢
  obtain ⟨events, result⟩ := parsed
  cases result with
  | error e => exact ⟨events, e, rfl, Option.some.inj place⟩
  | ok template => exact absurd place nofun

end MarkupTemplates
