import MarkupTemplates.Output
import MarkupTemplates.Printing
import MarkupTemplates.Program.Basic

namespace MarkupTemplates

/-- What a class tells of itself: its own name, the name of its templates, and the source that they
were compiled from. A stream writes bytes. -/
structure ClassHeader where
  className : Text
  name : Option Text := none
  encoding : Text := "UTF-8"
  source : Text := []
  lastModified : Nat := 0
  stream : Bool := false
  deriving DecidableEq, Repr

/-- What a template tells of itself to whoever finds it in a frame. -/
inductive TemplateDetail where
  | name
  | className
  | encoding
  | source
  | lastModified
  deriving DecidableEq, Repr

/-- Where a script finds a frame: so many frames outwards from its own one, or from the ambient one. -/
inductive FramePlace where
  | own (outwards : Nat)
  | ambient (outwards : Nat)
  deriving DecidableEq, Repr

mutual

/-- A kind of template: what its templates do, and how the macros are made that it declares, in order
of declaration. -/
structure TemplateClass where
  header : ClassHeader
  body : TemplateBody
  macros : List (Text × TemplateMaker)

/-- How a macro is made when a template is constructed. -/
inductive TemplateMaker where
  | ofClass (c : TemplateClass)
  | given (t : Template)
  | failing (message : Text)

/-- A body is a compiled program, or one that is written by hand. A script stands for such a body, which may be any
function of the template and the frame, as far as that can be told in a fixed row of steps: a script does not branch,
remembers nothing from step to step, and does not know how to share an output between frames. What is said of all
scripts is said of no other bodies. -/
inductive TemplateBody where
  | program (p : Program)
  | script (steps : List ScriptStep)

/-- What can be done by hand to a frame, to those around it and to the ambient one, and what can be read there. -/
inductive ScriptStep where
  | write (t : Text)
  | writeBytes (b : List UInt8)
  | writeValue (v : Value Template)
  /-- Writes a parameter, or null if there is none of that name. -/
  | writeParameter (key : Text)
  | insert (key : Text) (v : Value Template)
  | remove (key : Text)
  | includeMacro (name : Text)
  | bindMacro (name : Text)
  /-- Writes the text of a macro without including it. -/
  | writeMacroText (name : Text)
  | includeParameter (key : Text)
  | writeKeys
  /-- Writes the names of the templates from this frame outwards. -/
  | writeFrames
  /-- Writes how the ambient frame relates to this one. -/
  | writeAmbient
  | fail (message : Text)
  /-- Writes a parameter of another frame, or null if there is none of that name. -/
  | writeParameterOf (place : FramePlace) (key : Text)
  /-- Writes what the template of a frame tells of itself. -/
  | writeDetail (place : FramePlace) (detail : TemplateDetail)
  /-- Takes a step in another frame as if that were its own. -/
  | elsewhere (place : FramePlace) (step : ScriptStep)
  /-- Makes an empty frame ambient if there is none. -/
  | current
  /-- Puts a new frame in place of the ambient one, which encloses it. -/
  | push (template : Option Template) (parameters : Option (List (Text × Value Template))) (output : Option Output)
  /-- Goes back to the frame around the ambient one. -/
  | pop
  /-- Leaves no frame ambient. -/
  | clear
  /-- Takes steps while a new frame is ambient, which is left whatever they come to. -/
  | enter (template : Option Template) (parameters : Option (List (Text × Value Template))) (output : Option Output)
      (steps : List ScriptStep)

/-- A template: an instance of its class with settings, the names of functions at its disposal, and
macros, those from outside and its own. -/
structure Template where
  ofClass : TemplateClass
  printing : Printing
  functions : List Text
  imported : List (Text × Template)
  macros : List (Text × Template)

end

abbrev TemplateValue := Value Template

/-- Names of parameters with their values. -/
abbrev Parameters := Dictionary TemplateValue

namespace Template

def header (t : Template) : ClassHeader := t.ofClass.header

/-- Two templates count as the same if they go by the same name and are of classes of one name. -/
def identity (t : Template) : TemplateIdentity := ⟨t.header.name, t.header.className⟩

def same (a b : Template) : Bool := a.identity = b.identity

/-- A macro of the template itself, or else one from outside. -/
def macro? (t : Template) (name : Text) : Option Template :=
  (Dictionary.get? t.macros name).or (Dictionary.get? t.imported name)

/-- The source in its encoding, in UTF-8 if that is not known. -/
def sourceBytes (t : Template) : List UInt8 :=
  ((Charset.ofName? t.header.encoding).getD .utf8).encode t.header.source

end Template

end MarkupTemplates
