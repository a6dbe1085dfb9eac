import MarkupTemplates.Proofs.Rendering.Scripts

namespace MarkupTemplates

/-- A rendering that is compared with itself. It has touched nothing but its own frame and the log. -/
structure Stage.Steady (member : Template → Prop) (id : FrameId) (start s s' : Stage) : Prop where
  same : s = s'
  ready : s.Ready member id
  spared : start.Spared (· = id) s

/-- Whatever the action comes to, all frames are the same afterwards as they were before, and so is the ambient one. -/
def Render.Restores {α : Type} (action : Render α) : Prop :=
  ∀ s result after, action s = some (result, after) → s.Spared (fun _ => False) after

/-- Members that are run while there is an ambient frame touch nothing but the frame that they are run in. -/
def Sparing (member : Template → Prop) (inner : Runner) : Prop :=
  ∀ t, member t → ∀ s id result after, s.Ready member id → inner t id s = some (result, after) →
    s.Spared (· = id) after

theorem Template.OnlyPrograms.considerateScripts {t : Template} (only : t.OnlyPrograms) : t.ConsiderateScripts := by
  intro a reached steps body
  obtain ⟨p, program⟩ := only a reached
  cases body.symm.trans program

/-- What is looked at afterwards does not count if it leaves the stage as it is. -/
theorem Render.Restores.bind {α β : Type} {action : Render α} (restores : action.Restores) {next : α → Render β}
    (still : ∀ a s result after, next a s = some (result, after) → after = s) : (action >>= next).Restores := by
  intro s result after ran
  rw [Render.bind_apply] at ran
  obtain ⟨⟨first, between⟩, acted, ran⟩ := Option.bind_eq_some_iff.mp ran
  cases first with
  | ok a =>
    obtain rfl := still a between result after ran
    exact restores s (.ok a) after acted
  | error e =>
    obtain ⟨rfl, rfl⟩ := Prod.mk.inj (Option.some.inj ran)
    exact restores s (.error e) between acted

section

variable {α : Type} {member : Template → Prop} {id : FrameId} {start s after : Stage} {inner : Runner} {t : Template}
  {parameters : Option Parameters}

theorem Value.Alike.eq_of_selfsame {v w : TemplateValue} (alike : v.Alike (Selfsame member) w) : v = w := by
  cases alike with
  | template both => exact congrArg Value.template both.1
  | plain v => rfl

theorem Stage.Confined.update {other : FrameId} (confined : s.Confined member other) (known : id < s.frames.size)
    {change : Frame → Frame}
    (mirrors : ∀ f : Frame, f.Mirrors (Selfsame member) f → (change f).Mirrors (Selfsame member) (change f)) :
    (s.update id change).Confined member other where
  known := by
    rw [size_update]
    exact confined.known
  mirrors := by
    rw [frame_update s known]
    by_cases same : id = other
    · rw [if_pos same, same]
      exact mirrors _ confined.mirrors
    · rw [if_neg same]
      exact confined.mirrors

theorem Stage.Ready.update (ready : s.Ready member id) {change : Frame → Frame}
    (mirrors : ∀ f : Frame, f.Mirrors (Selfsame member) f → (change f).Mirrors (Selfsame member) (change f)) :
    (s.update id change).Ready member id :=
  let ⟨outer, ambient, confined⟩ := ready.ambient
  ⟨ready.toConfined.update ready.known mirrors, outer, ambient, confined.update ready.known mirrors⟩

theorem Stage.Confined.aside (confined : s.Confined member id) (spared : s.Spared (fun _ => False) after) :
    after.Confined member id where
  known := Nat.lt_of_lt_of_le confined.known spared.size
  mirrors := by
    rw [spared.others id confined.known not_false]
    exact confined.mirrors

/-- What goes on in new frames only has no part in this. -/
theorem Stage.Ready.aside (ready : s.Ready member id) (spared : s.Spared (fun _ => False) after) :
    after.Ready member id :=
  let ⟨outer, ambient, confined⟩ := ready.ambient
  ⟨ready.toConfined.aside spared, outer, spared.ambient.trans ambient, confined.aside spared⟩

theorem Stage.Fresh.confined (fresh : s.Fresh id t parameters)
    (given : Parameters.Alike (Selfsame member) parameters parameters) : s.Confined member id :=
  ⟨fresh.1, Stage.Fresh.mirrors rfl given fresh fresh⟩

namespace Stage.Steady

theorem twice {post : α → α → Prop} {action : Render α}
    (spares : ∀ s result after, s.Ready member id → action s = some (result, after) →
      (∀ a, result = .ok a → post a a) ∧ after.Ready member id ∧ s.Spared (· = id) after) :
    Render.Simulated (Steady member id start) post action action := by
  rintro s _ ⟨rfl, ready, spared⟩ result after ran
  obtain ⟨holds, ready', further⟩ := spares s result after ready ran
  refine ⟨result, after, ran, ?_, rfl, ready', spared.trans further⟩
  cases result with
  | ok a => exact .ok (holds a rfl)
  | error e => exact .error rfl

theorem frame : Render.Simulated (Steady member id start)
    (fun f g => f = g ∧ f.Mirrors (Selfsame member) f) (Render.frame id) (Render.frame id) := by
  refine twice fun s result after ready ran => ?_
  obtain ⟨rfl, rfl⟩ := Prod.mk.inj (Option.some.inj ran)
  refine ⟨fun f eq => ?_, ready, .refl _ _⟩
  obtain rfl := Except.ok.inj eq
  exact ⟨rfl, ready.mirrors⟩

theorem changing {change : Frame → Frame} (parent : ∀ f, (change f).parent = f.parent)
    (mirrors : ∀ f : Frame, f.Mirrors (Selfsame member) f → (change f).Mirrors (Selfsame member) (change f)) :
    Render.Simulated (Steady member id start) (fun _ _ => True) (Render.change (·.update id change))
      (Render.change (·.update id change)) := by
  refine twice fun s result after ready ran => ?_
  obtain ⟨_, rfl⟩ := Prod.mk.inj (Option.some.inj ran)
  exact ⟨fun _ _ => trivial, ready.update mirrors, (kept_update ready.known (parent _)).toSpared⟩

theorem output : Render.SameOutput (Steady member id start) id id where
  read := frame.mono fun _ _ both => congrArg Frame.output both.1
  put output := changing (fun _ => rfl) fun _ mirrors => mirrors.written (some output)

end Stage.Steady

namespace Sparing

theorem fill (sparing : Sparing member inner) (own : member t) (ready : s.Ready member id)
    {result : Except RenderError Output} (filled : t.fill inner id s = some (result, after)) :
    s.Spared (· = id) after := by
  rw [Template.fill, Render.bind_apply] at filled
  obtain ⟨⟨ran, between⟩, acted, filled⟩ := Option.bind_eq_some_iff.mp filled
  have spared := sparing t own s id ran between ready acted
  cases ran with
  | ok _ =>
    obtain ⟨_, rfl⟩ := Prod.mk.inj (Option.some.inj filled)
    exact spared.trans (Stage.kept_update (Nat.lt_of_lt_of_le ready.known spared.size) rfl).toSpared
  | error e =>
    obtain ⟨_, rfl⟩ := Prod.mk.inj (Option.some.inj filled)
    exact spared

theorem evaluate (sparing : Sparing member inner) (own : member t)
    (given : Parameters.Alike (Selfsame member) parameters parameters) : (t.evaluate inner parameters).Restores := by
  intro s result after evaluated
  rw [Template.evaluate_eq] at evaluated
  obtain ⟨⟨_, between⟩, filled, eq⟩ := Option.map_eq_some_iff.mp evaluated
  obtain ⟨rfl, rfl⟩ := Prod.mk.inj eq
  -- the new frame is the ambient one, too
  have confined := (s.fresh_push t parameters).confined given
  exact Stage.spared_pop_of_push (sparing.fill own ⟨confined, _, rfl, confined⟩ filled)

theorem evaluateIn (sparing : Sparing member inner) (own : member t) {parent : FrameId}
    (given : Parameters.Alike (Selfsame member) parameters parameters)
    (ambient : ∃ outer, s.ambient = some outer ∧ s.Confined member outer) {result : Except RenderError Output}
    (evaluated : t.evaluateIn inner (some parent) parameters s = some (result, after)) :
    s.Spared (fun _ => False) after := by
  have added := s.kept_add (some parent) (some t) parameters (some (.empty t.header.stream)) fun _ => False
  obtain ⟨outer, ambient, confined⟩ := ambient
  have new := (s.fresh_add (some parent) t parameters).confined given
  exact added.toSpared.new (sparing.fill own ⟨new, outer, ambient, confined.aside added.toSpared⟩ evaluated)

theorem embed (sparing : Sparing member inner) {other : Template} (known : member other) :
    Render.Simulated (Stage.Steady member id start) (fun _ _ => True) (t.embed inner id other)
      (t.embed inner id other) := by
  refine Stage.Steady.frame.bind fun f g both => ?_
  obtain ⟨rfl, mirrors⟩ := both
  have below : Render.Simulated (Stage.Steady member id start) Eq (other.evaluateIn inner (some id) (some f.snapshot))
      (other.evaluateIn inner (some id) (some f.snapshot)) := by
    refine Stage.Steady.twice fun s result after ready evaluated => ?_
    have spared := sparing.evaluateIn known mirrors.snapshot ready.ambient evaluated
    exact ⟨fun _ _ => rfl, ready.aside spared, spared.mono fun _ none => none.elim⟩
  refine below.bind fun output output' same => ?_
  subst same
  exact Stage.Steady.output.writeOutput rfl output

/-- Whatever a program does is done to its own frame, or to new ones. -/
theorem acts (sparing : Sparing member inner) (t : Template) (id : FrameId) (start : Stage) :
    Statement.Acts (Stage.Steady member id start) (Selfsame member) inner inner t t id id where
  write text := Stage.Steady.output.writing _
  evaluate e := by
    refine Stage.Steady.frame.bind fun f g both => .pure ?_
    obtain ⟨rfl, mirrors⟩ := both
    refine e.eval_alike (fun c c' d d' one other => ?_) fun name _ => mirrors.getD name
    rw [one.1, other.1]
  print v := by
    rw [writeValue_plain t v.map_ne_template]
    exact Stage.Steady.output.writing _
  embed a b both := by
    obtain ⟨rfl, known⟩ := both
    exact sparing.embed known
  assign var v w alike := by
    obtain rfl := alike.eq_of_selfsame
    exact Stage.Steady.changing (fun _ => rfl) fun _ mirrors => mirrors.insert var alike
  name := rfl

end Sparing

end

/-- Where all scripts are considerate that come to be bound, nothing that is run touches more than its own frame. -/
theorem sparing_runWithin {t : Template} (considerate : t.ConsiderateScripts) (depth : Nat) :
    Sparing t.Reaches (Template.runWithin depth) := by
  induction depth with
  | zero => exact fun a _ s id result after _ ran => absurd ran nofun
  | succ depth ih =>
    intro a reached s id result after ready ran
    cases body : a.ofClass.body with
    | script steps => exact considerate a reached steps body _ s id result after ready ran
    | program p =>
      have program : a.program = p := by rw [Template.program, body]
      have steady := simulated_all (ih.acts a id s) p fun name binds => by
        cases found : a.macro? name with
        | none => exact .none
        | some other => exact .some ⟨rfl, .bound reached (program ▸ binds) found⟩
      have whole : Render.Simulated (Stage.Steady t.Reaches id s) (fun _ _ => True)
          (Template.runWithin (depth + 1) a id) (Template.runWithin (depth + 1) a id) := by
        rw [Template.runWithin, body]
        exact steady.bind fun _ _ _ => .pure trivial
      obtain ⟨_, _, _, _, after_steady⟩ := whole s s ⟨rfl, ready, .refl _ s⟩ result after ran
      exact after_steady.spared

end MarkupTemplates
