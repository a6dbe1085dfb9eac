import MarkupTemplates.Directive.Comment
import MarkupTemplates.Directive.Names
import MarkupTemplates.Edit
import MarkupTemplates.Event
import MarkupTemplates.ParsedTemplate.Basic
import MarkupTemplates.ParsedTemplate.MacroBody

namespace MarkupTemplates

/-- A parse that came to an end early, with what had been logged by then. -/
structure ParseFailure where
  error : ParseError
  events : List Event

/-- What a parse leaves behind: the log, and a template or an error. -/
abbrev Parsed (Compiled : Type) := List Event × Except ParseError (ParsedTemplate Compiled)

/-- What is fixed while one source is parsed. Bodies of macros are sources of their own. -/
structure Job (Compiled : Type) where
  names : DirectiveNames
  dialect : Dialect
  compiler : Compiler Compiled
  resource : Resource
  stream : Bool
  parseBody : Resource → Parsed Compiled

/-- What is gathered on the way through the nodes of one source. -/
structure Walk (Compiled : Type) where
  edits : Edits := {}
  symbols : SymbolTable := {}
  macros : Dictionary (Macro Compiled) := []
  directives : Nat := 0
  events : List Event := []

/-- A macro comment that waits for the comment that closes it. -/
structure OpenMacro where
  comment : Span
  directive : Text
  value : Text
  deriving DecidableEq, Repr

namespace Walk

variable {Compiled : Type}

def log (w : Walk Compiled) (event : Event) : Walk Compiled :=
  { w with events := w.events ++ [event] }

def fail {α : Type} (job : Job Compiled) (w : Walk Compiled) (fault : ParseFault) (offset : Nat) :
    Except ParseFailure α :=
  .error ⟨.locate fault job.resource offset, w.events⟩

/-- Puts code that stands for `length` bytes at a position. -/
def place (w : Walk Compiled) (position length : Nat) (code : Text) : Walk Compiled :=
  { w with edits := w.edits.insert position (marker length code) }

def remove (w : Walk Compiled) (span : Span) : Walk Compiled :=
  { w with edits := w.edits.remove span }

def counted (w : Walk Compiled) : Walk Compiled := { w with directives := w.directives + 1 }

/-- The code of a statement. -/
def statement (job : Job Compiled) (w : Walk Compiled) (directive : Directive) :
    Except ParseFailure (Text × Walk Compiled) :=
  match job.dialect.statement directive w.symbols with
  | .ok (code, symbols) => .ok (code, { w.counted with symbols })
  | .error e =>
    w.fail job (.invalidDirective directive.name directive.value e.message)
      (e.offset.getD directive.valueStart)

/-- Parses and compiles the body of a macro and gives the code that binds it to its name. An error
in the body is reported where the enclosing source has the text. -/
def register (job : Job Compiled) (w : Walk Compiled) (head : MacroHead) (body : MacroBody)
    (span : Span) : Except ParseFailure (Text × Walk Compiled) :=
  match w.symbols.declare head.name templateType with
  | .error found => w.fail job (.duplicateMacro head.name found templateType) body.declaration
  | .ok symbols =>
    let resource := job.resource.extract head.name body.text
    let (events, parsed) := job.parseBody resource
    let w := { w with events := w.events ++ events }
    match parsed with
    | .error e => w.fail job e.fault (body.sourceOffset e.offset)
    | .ok template =>
      match job.compiler.compile template with
      | .error e => w.fail job (.invalidTemplate head.name e.message) body.declaration
      | .ok compiled =>
        let found : Macro Compiled :=
          { name := head.name, parameters := head.parameters, start := body.declaration
            body := span, template, compiled }
        let w := w.log (.extracted job.resource.name head.name head.parameters)
        .ok (job.dialect.binding head.name,
          { w.counted with symbols, macros := w.macros.insert head.name found })

/-- The head of a declaration that stands at byte `start`. -/
def macroHead (job : Job Compiled) (w : Walk Compiled) (directive value : Text) (start : Nat) :
    Except ParseFailure MacroHead :=
  match MacroHead.read directive value with
  | .ok head => .ok head
  | .error fault => w.fail job fault start

/-- The element that carries the declaration becomes the macro. -/
def elementMacro (job : Job Compiled) (w : Walk Compiled) (tag : Tag) (stop : Nat)
    (declaration : Attribute) : Except ParseFailure (Walk Compiled) := do
  let span : Span := ⟨tag.span.start, stop⟩
  let head ← w.macroHead job declaration.name (declaration.value.getD []) declaration.span.start
  let body := MacroBody.ofElement job.resource.source tag stop declaration (job.names.name .var)
    head.parameters
  let (code, w) ← w.register job head body span
  return (w.place span.start span.length code).remove span

/-- What stands between two comments becomes the macro. -/
def runMacro (job : Job Compiled) (w : Walk Compiled) (opened : OpenMacro) (closing : Span) :
    Except ParseFailure (Walk Compiled) := do
  let start := opened.comment.start
  let run : Span := ⟨opened.comment.stop, closing.start⟩
  let head ← w.macroHead job opened.directive opened.value start
  let body := MacroBody.ofRun job.resource.source run start (job.names.name .var) head.parameters
  let (code, w) ← w.register job head body run
  return ((w.remove run).place start (closing.stop - start) code).remove closing

/-- A comment among its siblings. While a macro is open, directives are left to its body, and only
another macro comment or the one that closes the macro counts. -/
def comment (job : Job Compiled) (w : Walk Compiled) (opened : Option OpenMacro) (span : Span) :
    Except ParseFailure (Option OpenMacro × Walk Compiled) :=
  match CommentDirective.read? span.start (job.resource.source.at span) with
  | none => .ok (opened, w)
  | some found =>
    match job.names.kindOf? found.name, opened with
    | some .defineMacro, _ =>
      let w := match opened with
        | some previous => w.log (.superseded job.resource.name previous.value found.value)
        | none => w
      .ok (some ⟨span, found.name, found.value⟩, w.remove span)
    | some .close, some opened =>
      if found.value.trim = ("macro" : Text) then
        (w.runMacro job opened span).map fun w => (none, w)
      else .ok (some opened, w)
    | _, some opened => .ok (some opened, w)
    | some .close, none =>
      let code := job.dialect.ending found.value.trim
      .ok (none, (w.counted.place span.stop span.length code).remove span)
    | some kind, none => do
      let value := found.value.trimStart
      let directive : Directive :=
        { kind, name := found.name, value := value.trimEnd, start := found.nameStart
          valueStart := found.valueStart + (found.value.byteSize - value.byteSize) }
      let (code, w) ← w.statement job directive
      return (none, (w.place span.start span.length code).remove span)
    | none, none => .ok (none, w)

/-- A statement attribute becomes code in front of its element. The blank before the attribute goes
with it. -/
def statementAttribute (job : Job Compiled) (w : Walk Compiled) (tag : Tag) (kind : DirectiveKind)
    (a : Attribute) : Except ParseFailure (Walk Compiled) := do
  let directive : Directive :=
    { kind, name := a.name, value := Text.trim (a.value.getD []), start := a.span.start
      valueStart := a.valueStart.getD a.span.stop }
  let (code, w) ← w.statement job directive
  let removed : Span := ⟨a.span.start - 1, a.span.stop⟩
  return (w.place tag.span.start removed.length code).remove removed

def statementAttributes (job : Job Compiled) (tag : Tag) :
    List (DirectiveKind × Attribute) → Walk Compiled → Except ParseFailure (Walk Compiled)
  | [], w => .ok w
  | (kind, a) :: rest, w => do statementAttributes job tag rest (← w.statementAttribute job tag kind a)

/-- The statement attributes of a tag, with their kinds. -/
def statementsOf (names : DirectiveNames) (tag : Tag) : List (DirectiveKind × Attribute) :=
  tag.attributes.filterMap fun a =>
    match names.kindOf? a.name with
    | some kind => if kind.isStatement then some (kind, a) else none
    | none => none

/-- The first macro declaration of a tag. -/
def declarationOf? (names : DirectiveNames) (tag : Tag) : Option Attribute :=
  tag.attributes.find? fun a => names.kindOf? a.name = some .defineMacro

/-- The code at the end of an element closes the statements of its attributes, the last one first. -/
def endings (job : Job Compiled) (tag : Tag) : List Text :=
  (((statementsOf job.names tag).map fun statement => job.dialect.ending statement.2.name).filter
    (· ≠ [])).reverse

mutual

def node (job : Job Compiled) (opened : Option OpenMacro) (w : Walk Compiled) :
    Node → Except ParseFailure (Option OpenMacro × Walk Compiled)
  | .comment span => w.comment job opened span
  | .element tag stop children =>
    if opened.isSome then .ok (opened, w)
    else match declarationOf? job.names tag with
      | some declaration => do return (none, ← w.elementMacro job tag stop declaration)
      | none => do
        let w ← statementAttributes job tag (statementsOf job.names tag) w
        let w ← siblings job none w children
        return (none, (endings job tag).foldl (fun w code => w.place stop 0 code) w)

/-- Nodes in a row. A macro that is opened among them has to be closed among them. -/
def siblings (job : Job Compiled) (opened : Option OpenMacro) (w : Walk Compiled) :
    List Node → Except ParseFailure (Walk Compiled)
  | [] =>
    match opened with
    | some opened => w.fail job (.unclosedMacro opened.value) opened.comment.start
    | none => .ok w
  | first :: rest => do
    let (opened, w) ← node job opened w first
    siblings job opened w rest

end

end Walk

end MarkupTemplates
