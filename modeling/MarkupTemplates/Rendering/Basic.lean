import MarkupTemplates.Frame

namespace MarkupTemplates

inductive RenderError where
  /-- There is nothing to write into. -/
  | noOutput
  | failed (template : Option Text) (message : Text)
  /-- The target does not take the text. -/
  | textRefused
  /-- The target does not take the bytes. -/
  | bytesRefused (cause : Text)
  deriving DecidableEq, Repr

def RenderError.message : RenderError → Text
  | noOutput => "no output is bound to the current context"
  | failed template message =>
    ("could not render template " : Text) ++ Outline.optionalText template ++ (": " : Text) ++ message
  | textRefused => "could not write output"
  | bytesRefused cause => ("could not write output: " : Text) ++ cause

/-- Rendering works on the stage, and what it does there stays when it ends in an error. There is no
answer at all if templates include each other beyond the bound that is set. -/
abbrev Render (α : Type) := ExceptT RenderError (StateT Stage Option) α

namespace Render

variable {α : Type}

def unanswered : Render α := fun _ => none

/-- The outcome, be it an error. -/
def outcome (action : Render α) : Render (Except RenderError α) := fun s =>
  (action s).map fun (result, s) => (.ok result, s)

/-- A step of the stage that gives a result. -/
def onStage (step : Stage → α × Stage) : Render α := fun s =>
  let (a, s) := step s
  some (.ok a, s)

def change (step : Stage → Stage) : Render Unit := onStage fun s => ((), step s)

def frame (id : FrameId) : Render Frame := onStage fun s => (s.frame id, s)

def fail (t : Template) (message : Text) : Render α :=
  throw (.failed t.header.name message)

/-- Adds to the output of a frame. -/
def writing (id : FrameId) (write : Output → Output) : Render Unit := do
  match (← frame id).output with
  | some output => change (·.update id fun f => { f with output := some (write output) })
  | none => throw .noOutput

/-- Writes text as it is, encoded as the template's settings ask for. -/
def write (t : Template) (id : FrameId) (text : Text) : Render Unit :=
  writing id (·.writeText text t.printing.outputCharset)

def writeBytes (t : Template) (id : FrameId) (bytes : List UInt8) : Render Unit :=
  writing id (·.writeBytes bytes t.printing.outputCharset)

/-- Writes what another template has written. -/
def writeOutput (t : Template) (id : FrameId) : Output → Render Unit
  | .text content => write t id content
  | .bytes content => writeBytes t id content

/-- Takes the output of a frame, which is empty after that. -/
def takeOutput (id : FrameId) (stream : Bool) : Render Output := do
  let output := (← frame id).output.getD (.empty stream)
  change (·.update id fun f => { f with output := some output.cleared })
  return output

end Render

/-- How the body of a template is run in a frame. -/
abbrev Runner := Template → FrameId → Render Unit

namespace Template

/-- The output of the body in a frame of its own inside the given one. The ambient frame has no part
in this. -/
def evaluateIn (run : Runner) (t : Template) (parent : Option FrameId)
    (parameters : Option Parameters) : Render Output := do
  let parent ← match parent with
    | some parent => pure parent
    | none => Render.onStage Stage.addRoot
  let id ← Render.onStage
    (·.add (some parent) (some t) parameters (some (.empty t.header.stream)))
  run t id
  Render.takeOutput id t.header.stream

/-- The output of the body in a frame that is ambient meanwhile. It is left whatever happens. -/
def evaluate (run : Runner) (t : Template) (parameters : Option Parameters) : Render Output := do
  let id ← Render.onStage (·.push (some t) parameters (some (.empty t.header.stream)))
  let result ← Render.outcome do
    run t id
    Render.takeOutput id t.header.stream
  Render.change Stage.pop
  result

/-- The output as text. -/
def textOf (t : Template) : Output → Text
  | .text content => content
  | .bytes content => t.printing.formatBytes content

/-- The output as bytes. -/
def bytesOf (t : Template) : Output → List UInt8
  | .text content => t.printing.serialize content
  | .bytes content => content

/-- The text of the template with what can be seen in the ambient frame. -/
def text (run : Runner) (t : Template) : Render Text := do
  let id ← Render.onStage Stage.current
  let parameters := (← Render.frame id).snapshot
  return t.textOf (← t.evaluate run (some parameters))

/-- The text of a template that is printed as a value. An error is only logged. -/
def printedText (run : Runner) (t : Template) : Render (Option Text) := do
  match ← Render.outcome (t.text run) with
  | .ok text => return some text
  | .error e =>
    Render.change (·.log (.unprintable t.header.name e.message))
    return none

/-- Pieces of a printed value put together. -/
def assemble (run : Runner) (value : TemplateValue) : List Piece → Render Text
  | [] => return []
  | .text t :: rest => return t ++ (← assemble run value rest)
  | .evaluated :: rest => do
    let t ← match value with
      | .template t => t.printedText run
      | _ => pure none
    return t.getD [] ++ (← assemble run value rest)

/-- The value as the template prints it. -/
def format (run : Runner) (t : Template) (value : TemplateValue) : Render Text :=
  assemble run value (t.printing.format (value.map identity))

/-- Writes a value, which passes the filter. -/
def writeValue (run : Runner) (t : Template) (id : FrameId) (value : TemplateValue) :
    Render Unit := do
  Render.write t id (t.printing.filtered (← t.format run value))

/-- Writes the output of another template, which sees what the frame shows. -/
def embed (run : Runner) (t : Template) (id : FrameId) (other : Template) : Render Unit := do
  let parameters := (← Render.frame id).snapshot
  Render.writeOutput t id (← other.evaluateIn run (some id) (some parameters))

end Template

end MarkupTemplates
