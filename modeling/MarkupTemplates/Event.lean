import MarkupTemplates.Text.Outline

namespace MarkupTemplates

inductive Level where
  | trace
  | debug
  | warn
  deriving DecidableEq, Repr

/-- What the log tells of a frame: how many frames enclose it, the name of its template, the names of
its parameters in order, and whether it has an output. -/
structure FrameSummary where
  depth : Nat
  template : Option Text
  parameters : Option (List Text)
  output : Bool
  deriving DecidableEq, Repr

/-- What goes into the log. -/
inductive Event where
  | parsed (template : Text) (directives macros : Nat)
  | extracted (template name : Text) (parameters : Option Text)
  /-- A macro comment that was never closed gives way to a later one. -/
  | superseded (template previous value : Text)
  | pushed (frame : FrameSummary)
  | popped (frame : FrameSummary)
  | nothingToPop
  | unprintable (template : Option Text) (cause : Text)
  deriving DecidableEq, Repr

def FrameSummary.outline (frame : FrameSummary) : Text :=
  Outline.record "Context"
    [("depth", Text.ofNat frame.depth),
      ("template", Outline.optionalText frame.template),
      ("parameters", Outline.option (frame.parameters.map fun names => Outline.set (names.map Text.quoted))),
      ("output", Outline.flag frame.output)]

namespace Event

def level : Event → Level
  | parsed .. => .debug
  | extracted .. => .debug
  | superseded .. => .warn
  | pushed .. => .trace
  | popped .. => .trace
  | nothingToPop => .warn
  | unprintable .. => .warn

def message : Event → Text
  | parsed .. => "parsed template"
  | extracted .. => "extracted macro"
  | superseded .. => "macro comment was never closed, a later one replaces it"
  | pushed .. => "push context"
  | popped .. => "pop context"
  | nothingToPop => "pop without an ambient context"
  | unprintable .. => "could not stringify template"

def fields : Event → List (Text × Text)
  | parsed template directives macros =>
    [("template", template), ("directives", Text.ofNat directives), ("macros", Text.ofNat macros)]
  | extracted template name parameters =>
    [("template", template), ("name", name), ("parameters", Outline.optionalText parameters)]
  | superseded template previous value =>
    [("template", template), ("superseded", previous), ("value", value)]
  | pushed frame => [("context", frame.outline)]
  | popped frame => [("context", frame.outline)]
  | nothingToPop => []
  | unprintable template cause => [("template", Outline.optionalText template), ("err", cause)]

end Event

end MarkupTemplates
