import MarkupTemplates.Rendering.Basic

namespace MarkupTemplates

/-- Whether to go on after a statement, or to leave the loop. -/
inductive Flow where
  | next
  | leave
  deriving DecidableEq, Repr

namespace Statement

/-- The value of an expression in a frame. Names that are not set are null. -/
def evaluate (id : FrameId) (e : Expression) : Render TemplateValue := do
  let f ← Render.frame id
  return e.eval Template.same fun name => (f.get? name).getD .null

def assign (id : FrameId) (var : Text) (v : TemplateValue) : Render Unit :=
  Render.change (·.update id (·.insert var v))

/-- Goes through values until one of them leaves the loop. -/
def loop (step : TemplateValue → Render Flow) : List TemplateValue → Render Unit
  | [] => return
  | item :: rest => do
    match ← step item with
    | .next => loop step rest
    | .leave => return

mutual

def run (inner : Runner) (t : Template) (id : FrameId) : Statement → Render Flow
  | .text content => do
    Render.write t id content
    return .next
  | .value e => do
    match ← evaluate id e with
    | .template other => t.embed inner id other
    | v => t.writeValue inner id v
    return .next
  | .branches all => runBranches inner t id all
  | .each var list body => do
    let items := (← evaluate id list).items
    loop (fun item => do
      assign id var item
      runAll inner t id body) items
    return .next
  | .breakIf condition => do
    return if (← evaluate id condition).isTrue then .leave else .next
  | .set var e => do
    assign id var (← evaluate id e)
    return .next
  | .bind name => do
    match t.macro? name with
    | some found => assign id name (.template found)
    | none => Render.fail t (("unknown macro " : Text) ++ name)
    return .next

def runAll (inner : Runner) (t : Template) (id : FrameId) : List Statement → Render Flow
  | [] => return .next
  | first :: rest => do
    match ← run inner t id first with
    | .next => runAll inner t id rest
    | .leave => return .leave

/-- Runs the first branch whose condition holds. -/
def runBranches (inner : Runner) (t : Template) (id : FrameId) :
    List (Option Expression × List Statement) → Render Flow
  | [] => return .next
  | (condition, body) :: rest => do
    let holds ← match condition with
      | some condition => pure (← evaluate id condition).isTrue
      | none => pure true
    if holds then runAll inner t id body else runBranches inner t id rest

end

end Statement

end MarkupTemplates
