import MarkupTemplates.Proofs.Rendering.Programs

namespace MarkupTemplates

/-- What an action comes to, whatever it leaves on the stage. -/
def Render.result {α : Type} (action : Render α) (s : Stage) : Option (Except RenderError α) :=
  (action s).map Prod.fst

/-- What is told of a template that is rendered with these parameters. -/
def Template.told (depth : Nat) (t : Template) (parameters : Option Parameters) :
    Option (Except (UnknownMacro Template) (List Deed)) :=
  Template.realm.account depth t (Parameters.scope (parameters.getD []))

/-- Where an action goes on without regard to the stage, it is enough to know what it came to before. -/
theorem Render.result_bind {α β : Type} {action : Render α} {next : α → Render β} {f : α → Except RenderError β}
    (simple : ∀ a s, next a s = some (f a, s)) (s : Stage) :
    (action >>= next).result s = (action.result s).map (·.bind f) := by
  rw [result, result, Render.bind_apply]
  cases action s with
  | none => rfl
  | some done =>
    obtain ⟨result, s'⟩ := done
    cases result with
    | error e => rfl
    | ok a =>
      simp only [Option.bind_some, simple]
      rfl

/-- The output that the body leaves in the frame. -/
def Template.fill (run : Runner) (t : Template) (id : FrameId) : Render Output := do
  run t id
  Render.takeOutput id t.header.stream

/-- A template is evaluated in a new frame, which is left whatever the body comes to. -/
theorem Template.evaluate_eq (run : Runner) (t : Template) (parameters : Option Parameters) (s : Stage) :
    t.evaluate run parameters s =
      (t.fill run s.frames.size (s.push (some t) parameters (some (.empty t.header.stream))).2).map
        fun (result, s') => (result, s'.pop) := by
  have begun : t.evaluate run parameters s =
      ((t.fill run s.frames.size).outcome >>= fun result => Render.change Stage.pop >>= fun _ => liftM result)
        (s.push (some t) parameters (some (.empty t.header.stream))).2 := rfl
  rw [begun, Render.bind_apply, Render.outcome]
  cases t.fill run s.frames.size (s.push (some t) parameters (some (.empty t.header.stream))).2 with
  | none => rfl
  | some done =>
    obtain ⟨result, s'⟩ := done
    cases result <;> rfl

theorem Template.result_evaluate (run : Runner) (t : Template) (parameters : Option Parameters) (s : Stage) :
    (t.evaluate run parameters).result s =
      (t.fill run s.frames.size).result (s.push (some t) parameters (some (.empty t.header.stream))).2 := by
  rw [Render.result, evaluate_eq, Option.map_map]
  rfl

theorem Template.result_renderText (depth : Nat) (t : Template) (parameters : Option Parameters)
    (accepts : Text → Bool) (s : Stage) :
    (t.renderText depth parameters accepts).result s =
      ((t.evaluate (runWithin depth) parameters).result s).map (·.bind fun output =>
        if accepts (t.textOf output) then .ok (t.textOf output) else .error .textRefused) := by
  refine Render.result_bind (fun output s => ?_) s
  cases accepts (t.textOf output) <;> rfl

theorem Template.result_renderBytes (depth : Nat) (t : Template) (parameters : Option Parameters)
    (refusal : List UInt8 → Option Text) (s : Stage) :
    (t.renderBytes depth parameters refusal).result s =
      ((t.evaluate (runWithin depth) parameters).result s).map (·.bind fun output =>
        match refusal (t.bytesOf output) with
        | none => .ok (t.bytesOf output)
        | some cause => .error (.bytesRefused cause)) := by
  refine Render.result_bind (fun output s => ?_) s
  cases refusal (t.bytesOf output) <;> rfl

/-- Whoever leaves the frame that was pushed comes back to the frame that was ambient before, and leaves all others as
they were. -/
theorem Stage.spared_pop_of_push {s after : Stage} {template : Option Template} {parameters : Option Parameters}
    {output : Option Output} (spared : (s.push template parameters output).2.Spared (· = s.frames.size) after) :
    s.Spared (fun _ => False) after.pop := by
  obtain ⟨depth, own⟩ := s.frame_add_new s.ambient template parameters output
  have larger : s.frames.size < (s.push template parameters output).2.frames.size :=
    s.lt_size_add s.ambient template parameters output
  have ambient : after.ambient = some s.frames.size := spared.ambient
  have popped : after.pop = { after with
      ambient := (after.frame s.frames.size).parent
      events := after.events ++ [.popped (after.frame s.frames.size).summary] } := by
    rw [pop, ambient]
    rfl
  have unchanged (other : FrameId) (known : other < s.frames.size) : after.frame other = s.frame other :=
    (spared.others other (Nat.lt_trans known larger) (Nat.ne_of_lt known)).trans
      (s.frame_add s.ambient template parameters output known)
  rw [popped]
  refine ⟨Nat.le_trans (Nat.le_of_lt larger) spared.size, fun other known _ => unchanged other known,
    fun other known => congrArg Frame.parent (unchanged other known), ?_⟩
  exact (spared.parent _ larger).trans (congrArg Frame.parent own)

section

variable {printing : Printing} {stream : Bool} {member : Template → Prop} {t : Template}
  {parameters : Option Parameters}

/-- A template that is evaluated in the ambient frame gives the output that is told of it, and the frame that was
ambient before is so again. -/
theorem performs_evaluate (company : Company printing stream member) (own : member t)
    (within : ∀ name, (Parameters.scope (parameters.getD []) name).Within member) (depth : Nat) (s : Stage) :
    match t.told depth parameters with
    | none => t.evaluate (Template.runWithin depth) parameters s = none
    | some result => ∃ s', t.evaluate (Template.runWithin depth) parameters s =
        some ((result.map (Output.told printing stream)).mapError UnknownMacro.error, s') ∧
        s'.ambient = s.ambient := by
  have same := company.stream t own
  subst same
  let pushed := (s.push (some t) parameters (some (.empty t.header.stream))).2
  have shows : pushed.Shows printing t.header.stream member s.frames.size
      ⟨Parameters.scope (parameters.getD []), []⟩ := by
    obtain ⟨known, scope, ordered, output, within⟩ := s.shows_add s.ambient t within
    exact ⟨known, scope, ordered, output, within⟩
  have taken := (performs_runWithin company depth).taken own shows
  rw [Template.evaluate_eq, Template.told]
  cases told : Template.realm.account depth t (Parameters.scope (parameters.getD [])) with
  | none =>
    rw [told] at taken
    rw [show t.fill (Template.runWithin depth) s.frames.size pushed = none from taken]
    rfl
  | some result =>
    rw [told] at taken
    obtain ⟨s', acted, kept⟩ := taken
    rw [show t.fill (Template.runWithin depth) s.frames.size pushed = _ from acted]
    exact ⟨s'.pop, rfl, (Stage.spared_pop_of_push kept.toSpared).ambient⟩

/-- Whatever is on the stage, evaluating a template gives what is told of it. -/
theorem evaluate_result (company : Company printing stream member) (own : member t)
    (within : ∀ name, (Parameters.scope (parameters.getD []) name).Within member) (depth : Nat) (s : Stage) :
    (t.evaluate (Template.runWithin depth) parameters).result s = (t.told depth parameters).map fun result =>
      (result.map (Output.told printing stream)).mapError UnknownMacro.error := by
  have evaluated := performs_evaluate company own within depth s
  rw [Render.result]
  cases told : t.told depth parameters with
  | none =>
    rw [told] at evaluated
    rw [show t.evaluate _ _ s = none from evaluated]
    rfl
  | some result =>
    rw [told] at evaluated
    obtain ⟨s', eq, _⟩ := evaluated
    rw [eq]
    rfl

/-- It makes no difference inside which frame a template is evaluated. -/
theorem evaluateIn_result (company : Company printing stream member) (own : member t)
    (within : ∀ name, (Parameters.scope (parameters.getD []) name).Within member) (depth : Nat)
    (parent : Option FrameId) (s : Stage) :
    (t.evaluateIn (Template.runWithin depth) parent parameters).result s = (t.told depth parameters).map fun result =>
      (result.map (Output.told printing stream)).mapError UnknownMacro.error := by
  have within_frame (parent : FrameId) (s : Stage) :
      (t.evaluateIn (Template.runWithin depth) (some parent) parameters).result s =
        (t.told depth parameters).map fun result =>
          (result.map (Output.told printing stream)).mapError UnknownMacro.error := by
    have evaluated := performs_evaluateIn company (performs_runWithin company depth) own parent within s
    rw [← Template.told] at evaluated
    rw [Render.result]
    cases told : t.told depth parameters with
    | none =>
      rw [told] at evaluated
      rw [show t.evaluateIn _ _ _ s = none from evaluated]
      rfl
    | some result =>
      rw [told] at evaluated
      obtain ⟨s', eq, _⟩ := evaluated
      rw [eq]
      rfl
  cases parent with
  | some parent => exact within_frame parent s
  | none => exact within_frame s.frames.size s.addRoot.2

/-- The text of a rendering, if the target takes it. -/
theorem renderText_result (company : Company printing stream member) (own : member t)
    (within : ∀ name, (Parameters.scope (parameters.getD []) name).Within member) (depth : Nat)
    (accepts : Text → Bool) (s : Stage) :
    (t.renderText depth parameters accepts).result s = (t.told depth parameters).map fun result =>
      ((result.map (Output.told printing stream)).mapError UnknownMacro.error).bind fun output =>
        if accepts (t.textOf output) then .ok (t.textOf output) else .error .textRefused := by
  rw [Template.result_renderText, evaluate_result company own within, Option.map_map]
  rfl

/-- The bytes of a rendering, if the target takes them. -/
theorem renderBytes_result (company : Company printing stream member) (own : member t)
    (within : ∀ name, (Parameters.scope (parameters.getD []) name).Within member) (depth : Nat)
    (refusal : List UInt8 → Option Text) (s : Stage) :
    (t.renderBytes depth parameters refusal).result s = (t.told depth parameters).map fun result =>
      ((result.map (Output.told printing stream)).mapError UnknownMacro.error).bind fun output =>
        match refusal (t.bytesOf output) with
        | none => .ok (t.bytesOf output)
        | some cause => .error (.bytesRefused cause) := by
  rw [Template.result_renderBytes, evaluate_result company own within, Option.map_map]
  rfl

end

end MarkupTemplates
