import MarkupTemplates.Rendering.Program
import MarkupTemplates.Rendering.Script

namespace MarkupTemplates

namespace Template

/-- Runs a body, in which templates may be nested as deep as the bound says. -/
def runWithin : Nat → Runner
  | 0, _, _ => Render.unanswered
  | depth + 1, t, id =>
    match t.ofClass.body with
    | .program p => do
      let _ ← Statement.runAll (runWithin depth) t id p
    | .script steps => ScriptStep.runAll (runWithin depth) t id steps

/-- The output as text, for a target that may refuse it. -/
def renderText (depth : Nat) (t : Template) (parameters : Option Parameters)
    (accepts : Text → Bool) : Render Text := do
  let text := t.textOf (← t.evaluate (runWithin depth) parameters)
  if accepts text then return text else throw .textRefused

/-- The output as bytes, for a target that may refuse them with a cause. -/
def renderBytes (depth : Nat) (t : Template) (parameters : Option Parameters)
    (refusal : List UInt8 → Option Text) : Render (List UInt8) := do
  let bytes := t.bytesOf (← t.evaluate (runWithin depth) parameters)
  match refusal bytes with
  | none => return bytes
  | some cause => throw (.bytesRefused cause)

end Template

/-- The outcome of an action that starts without ambient frame, and whether it left one behind. After
that the ambient frame is the same as before. -/
def Render.apart {α : Type} (action : Render α) : Render (Except RenderError α × Bool) := do
  let ambient ← Render.onStage fun s => (s.ambient, s.clear)
  let result ← action.outcome
  let left ← Render.onStage fun s => (s.ambient.isSome, { s with ambient })
  return (result, left)

end MarkupTemplates
