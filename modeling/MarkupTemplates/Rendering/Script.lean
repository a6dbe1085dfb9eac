import MarkupTemplates.Rendering.Basic

namespace MarkupTemplates

/-- The frame so many frames outwards. -/
def Stage.outer? (s : Stage) : Nat → FrameId → Option FrameId
  | 0, id => some id
  | outwards + 1, id => (s.frame id).parent.bind (s.outer? outwards)

/-- The frame at a place, seen from the given one. -/
def FramePlace.find? (s : Stage) (id : FrameId) : FramePlace → Option FrameId
  | own outwards => s.outer? outwards id
  | ambient outwards => s.ambient.bind (s.outer? outwards)

def Template.detail (t : Template) : TemplateDetail → Text
  | .name => t.header.name.getD "unnamed"
  | .className => t.header.className
  | .encoding => t.header.encoding
  | .source => t.header.source
  | .lastModified => Text.ofNat t.header.lastModified

namespace ScriptStep

/-- A macro that the script relies on. -/
def neededMacro (t : Template) (name : Text) : Render Template :=
  match t.macro? name with
  | some found => return found
  | none => Render.fail t (("unknown macro " : Text) ++ name)

/-- How a frame is called by its template. -/
def frameName (f : Frame) : Text :=
  match f.template with
  | some t => t.detail .name
  | none => "none"

/-- Acts on the frame at a place, if there is one. -/
def visit (id : FrameId) (place : FramePlace) (act : FrameId → Render Unit) : Render Unit := do
  match ← Render.onStage fun s => (place.find? s id, s) with
  | some other => act other
  | none => return

mutual

def run (inner : Runner) (t : Template) (id : FrameId) : ScriptStep → Render Unit
  | .write text => Render.write t id text
  | .writeBytes b => Render.writeBytes t id b
  | .writeValue v => t.writeValue inner id v
  | .writeParameter key => do
    t.writeValue inner id (((← Render.frame id).get? key).getD .null)
  | .insert key v => Render.change (·.update id (·.insert key v))
  | .remove key => Render.change (·.update id (·.remove key))
  | .includeMacro name => do t.embed inner id (← neededMacro t name)
  | .bindMacro name => do
    let found ← neededMacro t name
    Render.change (·.update id (·.insert name (.template found)))
  | .writeMacroText name => do Render.write t id (← (← neededMacro t name).text inner)
  | .includeParameter key => do
    match (← Render.frame id).get? key with
    | some (.template other) => t.embed inner id other
    | _ => Render.fail t (key ++ (" is not a template" : Text))
  | .writeKeys => do Render.write t id (Text.joined [','] (← Render.frame id).keys)
  | .writeFrames => do
    let frames ← Render.onStage fun s => (s.chain id, s)
    Render.write t id (Text.joined ['>'] (frames.map frameName))
  | .writeAmbient => do
    let ambient ← Render.onStage fun s => (s.ambient, s)
    Render.write t id (match ambient with
      | some other => if other = id then "same" else "other"
      | none => "none")
  | .fail message => Render.fail t message
  | .writeParameterOf place key => visit id place fun other => do
    t.writeValue inner id (((← Render.frame other).get? key).getD .null)
  | .writeDetail place detail => visit id place fun other => do
    match (← Render.frame other).template with
    | some found => Render.write t id (found.detail detail)
    | none => return
  | .elsewhere place step => visit id place fun other => run inner t other step
  | .current => do
    let _ ← Render.onStage Stage.current
  | .push template parameters output => do
    let _ ← Render.onStage (·.push template parameters output)
  | .pop => Render.change Stage.pop
  | .clear => Render.change Stage.clear
  | .enter template parameters output steps => do
    let _ ← Render.onStage (·.push template parameters output)
    let result ← Render.outcome (runAll inner t id steps)
    Render.change Stage.pop
    result

/-- The first step that fails ends the script. -/
def runAll (inner : Runner) (t : Template) (id : FrameId) : List ScriptStep → Render Unit
  | [] => return
  | first :: rest => do
    run inner t id first
    runAll inner t id rest

end

end ScriptStep

end MarkupTemplates
