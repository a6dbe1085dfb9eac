import MarkupTemplates.Event
import MarkupTemplates.Output
import MarkupTemplates.Template.Basic

namespace MarkupTemplates

/-- Frames are known by their number in order of creation. -/
abbrev FrameId := Nat

/-- What is rendered at some moment: by which template, with which parameters, into which output, and
inside which frame. What a template sets itself stays in its frame. -/
structure Frame where
  parent : Option FrameId := none
  /-- How many frames enclose this one. -/
  depth : Nat := 0
  template : Option Template := none
  parameters : Option Parameters := none
  locals : Parameters := []
  output : Option Output := none

namespace Frame

def given (f : Frame) : Parameters := f.parameters.getD []

/-- A value that was set in the frame hides the parameter of its name. -/
def get? (f : Frame) (key : Text) : Option TemplateValue :=
  (f.locals.get? key).or (f.given.get? key)

def contains (f : Frame) (key : Text) : Bool := f.locals.contains key || f.given.contains key

def insert (f : Frame) (key : Text) (v : TemplateValue) : Frame :=
  { f with locals := f.locals.insert key v }

/-- Parameters are never taken away: what is removed is only a value that was set in the frame. -/
def remove (f : Frame) (key : Text) : Frame := { f with locals := f.locals.erase key }

def keys (f : Frame) : List Text :=
  f.given.keys.foldl NameSet.insert (f.locals.keys.foldl NameSet.insert [])

/-- All that can be seen at the moment. -/
def snapshot (f : Frame) : Parameters := f.given.overlay f.locals

/-- Whether a snapshot is nothing but the parameters that the frame was created with. -/
def isUntouched (f : Frame) : Bool := f.parameters.isSome && f.locals.isEmpty

def summary (f : Frame) : FrameSummary :=
  { depth := f.depth
    template := f.template.bind fun t => t.header.name
    parameters := f.parameters.map Dictionary.keys
    output := f.output.isSome }

end Frame

/-- All frames there have been, the ambient one if there is one, and the log. -/
structure Stage where
  frames : Array Frame := #[]
  ambient : Option FrameId := none
  events : List Event := []

namespace Stage

def frame (s : Stage) (id : FrameId) : Frame := s.frames.getD id {}

def update (s : Stage) (id : FrameId) (change : Frame → Frame) : Stage :=
  { s with frames := s.frames.modify id change }

def log (s : Stage) (event : Event) : Stage := { s with events := s.events ++ [event] }

/-- A frame inside another one, or one that stands alone. -/
def add (s : Stage) (parent : Option FrameId) (template : Option Template)
    (parameters : Option Parameters) (output : Option Output) : FrameId × Stage :=
  let depth := match parent with
    | some id => (s.frame id).depth + 1
    | none => 0
  (s.frames.size,
    { s with frames := s.frames.push { parent, depth, template, parameters, output } })

def addRoot (s : Stage) : FrameId × Stage := s.add none none none none

/-- The ambient frame. If there is none, an empty one takes the place. -/
def current (s : Stage) : FrameId × Stage :=
  match s.ambient with
  | some id => (id, s)
  | none =>
    let (id, s) := s.addRoot
    (id, { s with ambient := some id })

/-- Puts a new frame in place of the ambient one, which encloses it. -/
def push (s : Stage) (template : Option Template) (parameters : Option Parameters)
    (output : Option Output) : FrameId × Stage :=
  let (id, s) := s.add s.ambient template parameters output
  (id, { s with ambient := some id }.log (.pushed (s.frame id).summary))

/-- Goes back to the frame that encloses the ambient one. -/
def pop (s : Stage) : Stage :=
  match s.ambient with
  | some id => { s with ambient := (s.frame id).parent }.log (.popped (s.frame id).summary)
  | none => s.log .nothingToPop

def clear (s : Stage) : Stage := { s with ambient := none }

/-- The frame and those around it, from the inside out, as many as the bound allows. -/
def outwards (s : Stage) : Nat → FrameId → List Frame
  | 0, _ => []
  | bound + 1, id =>
    s.frame id :: match (s.frame id).parent with
      | some parent => outwards s bound parent
      | none => []

/-- The frame and all those around it. -/
def chain (s : Stage) (id : FrameId) : List Frame := s.outwards ((s.frame id).depth + 1) id

end Stage

end MarkupTemplates
