import MarkupTemplates.Proofs.Rendering.Mirrors

namespace MarkupTemplates

/-- The frame is on the stage, and no templates are among its parameters but members. -/
structure Stage.Confined (member : Template → Prop) (id : FrameId) (s : Stage) : Prop where
  known : id < s.frames.size
  mirrors : (s.frame id).Mirrors (Selfsame member) (s.frame id)

/-- Members can be run in the frame: neither there nor in the ambient frame, which there is, are other templates. -/
structure Stage.Ready (member : Template → Prop) (id : FrameId) (s : Stage) : Prop extends Confined member id s where
  ambient : ∃ outer, s.ambient = some outer ∧ s.Confined member outer

/-- A template that changes nothing on the stage but its own frame and the log, whenever it is run where there are no
templates but members. There may be new frames. -/
def Template.Considerate (member : Template → Prop) (t : Template) : Prop :=
  ∀ depth s id result after, s.Ready member id → Template.runWithin depth t id s = some (result, after) →
    s.Spared (· = id) after

/-- Every script that comes to be bound where the template is rendered is considerate. -/
def Template.ConsiderateScripts (t : Template) : Prop :=
  ∀ a, t.Reaches a → ∀ steps, a.ofClass.body = .script steps → a.Considerate t.Reaches

/-- The step asks for no other template to be run, and acts on no other frame than the script's own one. -/
def ScriptStep.Modest : ScriptStep → Prop
  | .write _ => True
  | .writeBytes _ => True
  | .insert _ _ => True
  | .remove _ => True
  | .bindMacro _ => True
  | .writeKeys => True
  | .writeFrames => True
  | .writeAmbient => True
  | .writeDetail _ _ => True
  | .fail _ => True
  | _ => False

/-- Whatever the action comes to, it changes nothing on the stage but that frame and the log. -/
def Render.Spares {α : Type} (id : FrameId) (action : Render α) : Prop :=
  ∀ s result after, id < s.frames.size → action s = some (result, after) → s.Spared (· = id) after

section

variable {α β : Type} {id : FrameId} {inner : Runner} {t : Template}

namespace Render.Spares

theorem pure (a : α) : Spares id (Pure.pure a) := by
  intro s result after _ ran
  obtain ⟨_, rfl⟩ := Prod.mk.inj (Option.some.inj ran)
  exact .refl _ _

theorem throw (e : RenderError) : Spares id (MonadExcept.throw e : Render α) := by
  intro s result after _ ran
  obtain ⟨_, rfl⟩ := Prod.mk.inj (Option.some.inj ran)
  exact .refl _ _

theorem looking (look : Stage → α) : Spares id (Render.onStage fun s => (look s, s)) := by
  intro s result after _ ran
  obtain ⟨_, rfl⟩ := Prod.mk.inj (Option.some.inj ran)
  exact .refl _ _

theorem changing {change : Frame → Frame} (parent : ∀ f, (change f).parent = f.parent) :
    Spares id (Render.change (·.update id change)) := by
  intro s result after known ran
  obtain ⟨_, rfl⟩ := Prod.mk.inj (Option.some.inj ran)
  exact (Stage.kept_update known (parent _)).toSpared

theorem bind {action : Render α} {next : α → Render β} (first : Spares id action) (rest : ∀ a, Spares id (next a)) :
    Spares id (action >>= next) := by
  intro s result after known ran
  rw [Render.bind_apply] at ran
  obtain ⟨⟨begun, between⟩, acted, ran⟩ := Option.bind_eq_some_iff.mp ran
  have spared := first s begun between known acted
  cases begun with
  | ok a => exact spared.trans (rest a between result after (Nat.lt_of_lt_of_le known spared.size) ran)
  | error e =>
    obtain ⟨_, rfl⟩ := Prod.mk.inj (Option.some.inj ran)
    exact spared

theorem writing (write : Output → Output) : Spares id (Render.writing id write) := by
  refine (looking fun s => s.frame id).bind fun f => ?_
  cases f.output with
  | none => exact throw _
  | some output => exact changing fun _ => rfl

end Render.Spares

theorem ScriptStep.spares_neededMacro (name : Text) : Render.Spares id (neededMacro t name) := by
  rw [neededMacro]
  cases t.macro? name with
  | none => exact .throw _
  | some found => exact .pure found

/-- What a modest step does is done to the frame of the script. -/
theorem ScriptStep.Modest.spares {step : ScriptStep} (modest : step.Modest) :
    Render.Spares id (step.run inner t id) := by
  cases step with
  | write _ => exact .writing _
  | writeBytes _ => exact .writing _
  | insert _ _ => exact .changing fun _ => rfl
  | remove _ => exact .changing fun _ => rfl
  | bindMacro name => exact (spares_neededMacro name).bind fun _ => .changing fun _ => rfl
  | writeKeys => exact (Render.Spares.looking fun s => s.frame id).bind fun _ => .writing _
  | writeFrames => exact (Render.Spares.looking fun s => s.chain id).bind fun _ => .writing _
  | writeAmbient => exact (Render.Spares.looking fun s => s.ambient).bind fun _ => .writing _
  | writeDetail place detail =>
    refine (Render.Spares.looking fun s => place.find? s id).bind fun found => ?_
    cases found with
    | none => exact .pure ()
    | some other =>
      refine (Render.Spares.looking fun s => s.frame other).bind fun f => ?_
      cases f.template with
      | none => exact .pure ()
      | some found => exact .writing _
  | fail _ => exact .throw _
  | _ => exact modest.elim

theorem ScriptStep.spares_runAll {steps : List ScriptStep} (modest : ∀ step ∈ steps, step.Modest) :
    Render.Spares id (ScriptStep.runAll inner t id steps) := by
  induction steps with
  | nil => exact .pure ()
  | cons first rest ih =>
    have rest_modest := fun step member => modest step (List.mem_cons_of_mem first member)
    exact (modest first List.mem_cons_self).spares.bind fun _ => ih rest_modest

/-- A script of modest steps is considerate, whatever there is on the stage. -/
theorem Template.considerate_of_modest {member : Template → Prop} {steps : List ScriptStep}
    (body : t.ofClass.body = .script steps) (modest : ∀ step ∈ steps, step.Modest) : t.Considerate member := by
  intro depth s id result after ready ran
  cases depth with
  | zero => exact absurd ran nofun
  | succ depth =>
    rw [Template.runWithin, body] at ran
    exact ScriptStep.spares_runAll modest s result after ready.known ran

/-- A script binds nothing. -/
theorem Template.Reaches.eq_of_script {a : Template} (reached : t.Reaches a) {steps : List ScriptStep}
    (body : t.ofClass.body = .script steps) : a = t := by
  induction reached with
  | self => rfl
  | @bound a b name _ binds _ ih =>
    rw [ih, program, body] at binds
    cases binds with
    | here member => cases member
    | branch member => cases member
    | each member => cases member

end

end MarkupTemplates
