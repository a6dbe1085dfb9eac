import MarkupTemplates.Proofs.Frame.Likeness
import MarkupTemplates.Proofs.Rendering.Companies
import MarkupTemplates.Proofs.Rendering.Simulation

namespace MarkupTemplates

/-- Templates with programs that stand in for each other: they count as the same, have one program, print alike, and so
do the macros that they bind. -/
structure Doubles (rel : Template → Template → Prop) : Prop where
  identity : ∀ a b, rel a b → a.identity = b.identity
  program : ∀ a b, rel a b → ∃ p, a.ofClass.body = .program p ∧ b.ofClass.body = .program p
  printing : ∀ a b, rel a b → a.printing = b.printing
  stream : ∀ a b, rel a b → a.header.stream = b.header.stream
  macros : ∀ a b, rel a b → ∀ name, a.program.Binds name → Option.Rel rel (a.macro? name) (b.macro? name)

/-- The very same template, which is a member. -/
def Selfsame (member : Template → Prop) (a b : Template) : Prop := a = b ∧ member a

/-- Two renderings that have begun at two stages, in frames that mirror each other, have come equally far. Neither has
touched anything but its own frame. -/
structure Stage.Beside (rel : Template → Template → Prop) (id id' : FrameId) (start start' s s' : Stage) : Prop where
  known : id < start.frames.size
  known' : id' < start'.frames.size
  mirrors : (s.frame id).Mirrors rel (s'.frame id')
  kept : start.Kept (· = id) s
  kept' : start'.Kept (· = id') s'

/-- Templates that stand in for each other do the same in two frames which mirror each other. -/
def Parallel (rel : Template → Template → Prop) (inner inner' : Runner) : Prop :=
  ∀ a b, rel a b → ∀ id id' start start',
    Render.Simulated (Stage.Beside rel id id' start start') (fun _ _ => True) (inner a id) (inner' b id')

/-- Nothing has been done yet in the frame that the template is rendered in. -/
def Stage.Fresh (s : Stage) (id : FrameId) (t : Template) (parameters : Option Parameters) : Prop :=
  id < s.frames.size ∧ ∃ parent depth,
    s.frame id = { parent, depth, template := some t, parameters, output := some (.empty t.header.stream) }

section

variable {rel : Template → Template → Prop} {id id' : FrameId} {start start' s s' : Stage} {inner inner' : Runner}
  {a b : Template} {parameters parameters' : Option Parameters}

theorem Parameters.TemplateFree.mirrored (free : (parameters.getD []).TemplateFree)
    (rel : Template → Template → Prop) : Parameters.Alike rel parameters parameters := by
  cases parameters with
  | none => exact .none
  | some parameters =>
    refine .some (List.forall₂_same.mpr fun entry member => ⟨rfl, ?_⟩)
    obtain ⟨w, eq⟩ := Value.exists_plain (free entry.1 entry.2 member)
    rw [eq]
    exact .plain w

theorem Doubles.symm (doubles : Doubles rel) : Doubles fun b a => rel a b where
  identity b a related := (doubles.identity a b related).symm
  program b a related :=
    let ⟨p, one, other⟩ := doubles.program a b related
    ⟨p, other, one⟩
  printing b a related := (doubles.printing a b related).symm
  stream b a related := (doubles.stream a b related).symm
  macros b a related name binds := by
    obtain ⟨p, one, other⟩ := doubles.program a b related
    have programs : a.program = b.program := by rw [Template.program, Template.program, one, other]
    have below := doubles.macros a b related name (programs ▸ binds)
    generalize a.macro? name = found at below
    generalize b.macro? name = found' at below
    cases below with
    | none => exact .none
    | some related => exact .some related

/-- Members of a troupe stand in for themselves. -/
theorem Troupe.doubles {member : Template → Prop} (troupe : Troupe member) : Doubles (Selfsame member) where
  identity a b same := congrArg Template.identity same.1
  program a b same :=
    let ⟨p, body⟩ := troupe.program a same.2
    ⟨p, body, same.1 ▸ body⟩
  printing a b same := congrArg Template.printing same.1
  stream a b same := congrArg (fun t => t.header.stream) same.1
  macros a b same name binds := by
    rw [← same.1]
    cases found : a.macro? name with
    | none => exact .none
    | some other => exact .some ⟨rfl, troupe.macros a same.2 name binds other found⟩

namespace Stage

theorem Beside.update (beside : Beside rel id id' start start' s s') {change change' : Frame → Frame}
    (parent : ∀ f, (change f).parent = f.parent) (parent' : ∀ f, (change' f).parent = f.parent)
    (mirrors : (change (s.frame id)).Mirrors rel (change' (s'.frame id'))) :
    Beside rel id id' start start' (s.update id change) (s'.update id' change') := by
  have known := Nat.lt_of_lt_of_le beside.known beside.kept.size
  have known' := Nat.lt_of_lt_of_le beside.known' beside.kept'.size
  refine ⟨beside.known, beside.known', ?_, beside.kept.trans (kept_update known (parent _)),
    beside.kept'.trans (kept_update known' (parent' _))⟩
  rw [frame_update s known, frame_update s' known', if_pos rfl, if_pos rfl]
  exact mirrors

/-- What goes on in new frames only has no part in this. -/
theorem Beside.aside {after after' : Stage} (beside : Beside rel id id' start start' s s')
    (kept : s.Kept (fun _ => False) after) (kept' : s'.Kept (fun _ => False) after') :
    Beside rel id id' start start' after after' := by
  refine ⟨beside.known, beside.known', ?_, beside.kept.trans (kept.mono fun _ none => none.elim),
    beside.kept'.trans (kept'.mono fun _ none => none.elim)⟩
  rw [kept.others id (Nat.lt_of_lt_of_le beside.known beside.kept.size) not_false,
    kept'.others id' (Nat.lt_of_lt_of_le beside.known' beside.kept'.size) not_false]
  exact beside.mirrors

theorem fresh_add (s : Stage) (parent : Option FrameId) (t : Template) (parameters : Option Parameters) :
    (s.add parent (some t) parameters (some (.empty t.header.stream))).2.Fresh s.frames.size t parameters :=
  ⟨s.lt_size_add _ _ _ _, parent, s.frame_add_new parent (some t) parameters (some (.empty t.header.stream))⟩

theorem fresh_push (s : Stage) (t : Template) (parameters : Option Parameters) :
    (s.push (some t) parameters (some (.empty t.header.stream))).2.Fresh s.frames.size t parameters :=
  s.fresh_add s.ambient t parameters

theorem Fresh.mirrors (stream : a.header.stream = b.header.stream) (given : Parameters.Alike rel parameters parameters')
    (one : s.Fresh id a parameters) (other : s'.Fresh id' b parameters') :
    (s.frame id).Mirrors rel (s'.frame id') := by
  obtain ⟨_, parent, depth, own⟩ := one
  obtain ⟨_, parent', depth', own'⟩ := other
  rw [own, own', stream]
  exact ⟨given, .nil, rfl⟩

end Stage

theorem simulated_frame :
    Render.Simulated (Stage.Beside rel id id' start start') (Frame.Mirrors rel) (Render.frame id)
      (Render.frame id') :=
  .onStage fun _ _ beside => ⟨beside.mirrors, beside⟩

theorem simulated_change {change change' : Frame → Frame} (parent : ∀ f, (change f).parent = f.parent)
    (parent' : ∀ f, (change' f).parent = f.parent)
    (mirrors : ∀ f g : Frame, f.Mirrors rel g → (change f).Mirrors rel (change' g)) :
    Render.Simulated (Stage.Beside rel id id' start start') (fun _ _ => True)
      (Render.change (·.update id change)) (Render.change (·.update id' change')) :=
  .onStage fun _ _ beside => ⟨trivial, beside.update parent parent' (mirrors _ _ beside.mirrors)⟩

theorem mirrored_output : Render.SameOutput (Stage.Beside rel id id' start start') id id' where
  read := simulated_frame.mono fun _ _ mirrors => mirrors.output
  put output := simulated_change (fun _ => rfl) (fun _ => rfl) fun _ _ mirrors => mirrors.written (some output)

namespace Parallel

/-- Templates that stand in for each other come to the same in new frames with parameters that are alike, and touch
nothing but those frames. -/
theorem fill (parallel : Parallel rel inner inner') (doubles : Doubles rel) (related : rel a b)
    (given : Parameters.Alike rel parameters parameters') (one : s.Fresh id a parameters)
    (other : s'.Fresh id' b parameters') {result : Except RenderError Output} {after : Stage}
    (filled : a.fill inner id s = some (result, after)) :
    ∃ after', b.fill inner' id' s' = some (result, after') ∧ s.Kept (· = id) after ∧ s'.Kept (· = id') after' := by
  have stream := doubles.stream a b related
  have both : Render.Simulated (Stage.Beside rel id id' s s') Eq (a.fill inner id) (b.fill inner' id') := by
    refine (parallel a b related id id' s s').bind fun _ _ _ => ?_
    rw [stream]
    exact mirrored_output.takeOutput _
  have beside : Stage.Beside rel id id' s s' s s' :=
    ⟨one.1, other.1, Stage.Fresh.mirrors stream given one other, .refl _ s, .refl _ s'⟩
  obtain ⟨result', after', filled', same, beside⟩ := both s s' beside result after filled
  cases same with
  | ok same => exact ⟨after', same ▸ filled', beside.kept, beside.kept'⟩
  | error same => exact ⟨after', same ▸ filled', beside.kept, beside.kept'⟩

/-- It does not matter in which frames they are evaluated. -/
theorem evaluateIn (parallel : Parallel rel inner inner') (doubles : Doubles rel) (related : rel a b)
    (given : Parameters.Alike rel parameters parameters') (parent parent' : FrameId)
    {result : Except RenderError Output} {after : Stage}
    (evaluated : a.evaluateIn inner (some parent) parameters s = some (result, after)) :
    ∃ after', b.evaluateIn inner' (some parent') parameters' s' = some (result, after') ∧
      s.Kept (fun _ => False) after ∧ s'.Kept (fun _ => False) after' := by
  obtain ⟨after', filled, kept, kept'⟩ := parallel.fill doubles related given (s.fresh_add (some parent) a parameters)
    (s'.fresh_add (some parent') b parameters') evaluated
  exact ⟨after', filled, (s.kept_add _ _ _ _ _).new kept, (s'.kept_add _ _ _ _ _).new kept'⟩

theorem embed (parallel : Parallel rel inner inner') (doubles : Doubles rel) {t t' : Template}
    (printing : t.printing = t'.printing) (related : rel a b) :
    Render.Simulated (Stage.Beside rel id id' start start') (fun _ _ => True) (t.embed inner id a)
      (t'.embed inner' id' b) := by
  refine simulated_frame.bind fun f g mirrors => ?_
  -- the two new frames mirror each other, and the frames around them are not touched
  have below : Render.Simulated (Stage.Beside rel id id' start start') Eq
      (a.evaluateIn inner (some id) (some f.snapshot)) (b.evaluateIn inner' (some id') (some g.snapshot)) := by
    intro s s' beside result after evaluated
    obtain ⟨after', evaluated', kept, kept'⟩ := @evaluateIn _ s s' _ _ a b _ _ parallel doubles related
      mirrors.snapshot id id' _ _ evaluated
    refine ⟨result, after', evaluated', ?_, ?_⟩
    · cases result with
      | ok output => exact .ok rfl
      | error e => exact .error rfl
    · exact beside.aside kept kept'
  refine below.bind fun output output' same => ?_
  subst same
  exact mirrored_output.writeOutput printing output

/-- Whatever a program does in a frame that mirrors another one, it does there as well. -/
theorem acts (parallel : Parallel rel inner inner') (doubles : Doubles rel) (related : rel a b) (id id' : FrameId)
    (start start' : Stage) :
    Statement.Acts (Stage.Beside rel id id' start start') rel inner inner' a b id id' where
  write text := by
    rw [Render.write, Render.write, doubles.printing a b related]
    exact mirrored_output.writing _
  evaluate e := by
    refine simulated_frame.bind fun f g mirrors => .pure (e.eval_alike ?_ fun name _ => mirrors.getD name)
    intro c c' d d' one other
    rw [Template.same, Template.same, doubles.identity _ _ one, doubles.identity _ _ other]
  print v := by
    rw [writeValue_plain a v.map_ne_template, writeValue_plain b v.map_ne_template, Render.write, Render.write,
      doubles.printing a b related]
    exact mirrored_output.writing _
  embed c d below := parallel.embed doubles (doubles.printing a b related) below
  assign var v w values :=
    simulated_change (fun _ => rfl) (fun _ => rfl) fun _ _ mirrors => mirrors.insert var values
  name := congrArg TemplateIdentity.name (doubles.identity a b related)

end Parallel

end

namespace Doubles

variable {rel : Template → Template → Prop} {depth depth' : Nat} {a b : Template} {id id' : FrameId} {s s' : Stage}

/-- Templates that stand in for each other do the same if they are rendered, where there is at least as much room for
templates in each other the second time. -/
theorem parallel (doubles : Doubles rel) (less : depth ≤ depth') :
    Parallel rel (Template.runWithin depth) (Template.runWithin depth') := by
  -- what one template does is told by the induction hypothesis for those that it includes
  induction depth generalizing depth' with
  | zero => exact fun a b _ id id' start start' s s' _ result after ran => absurd ran nofun
  | succ depth ih =>
    obtain ⟨depth', rfl⟩ := Nat.exists_eq_add_of_le' (Nat.le_trans (Nat.succ_le_succ (Nat.zero_le depth)) less)
    intro a b related id id' start start'
    obtain ⟨p, body, body'⟩ := doubles.program a b related
    have program : a.program = p := by rw [Template.program, body]
    have acts := (ih (Nat.le_of_succ_le_succ less)).acts doubles related id id' start start'
    have ran := simulated_all acts p fun name binds => doubles.macros a b related name (program ▸ binds)
    simp only [Template.runWithin, body, body']
    exact ran.bind fun _ _ _ => .pure trivial

/-- What has come of one new frame comes of any other, with as much room or more. -/
theorem result_fill (doubles : Doubles rel) (less : depth ≤ depth') (related : rel a b)
    {parameters parameters' : Option Parameters} (given : Parameters.Alike rel parameters parameters')
    (one : s.Fresh id a parameters) (other : s'.Fresh id' b parameters') {result : Except RenderError Output}
    (come : (a.fill (Template.runWithin depth) id).result s = some result) :
    (b.fill (Template.runWithin depth') id').result s' = some result := by
  obtain ⟨⟨result, after⟩, filled, rfl⟩ := Option.map_eq_some_iff.mp come
  obtain ⟨after', filled', _⟩ := (doubles.parallel less).fill doubles related given one other filled
  exact Option.map_eq_some_iff.mpr ⟨(result, after'), filled', rfl⟩

/-- Templates that stand in for each other come to the same output in new frames, or neither comes to an end. -/
theorem fill_eq (doubles : Doubles rel) (related : rel a b) {parameters : Option Parameters}
    (free : (parameters.getD []).TemplateFree) (one : s.Fresh id a parameters) (other : s'.Fresh id' b parameters) :
    (a.fill (Template.runWithin depth) id).result s = (b.fill (Template.runWithin depth) id').result s' :=
  Option.ext fun _ => ⟨doubles.result_fill (Nat.le_refl depth) related (free.mirrored rel) one other,
    doubles.symm.result_fill (Nat.le_refl depth) related (free.mirrored _) other one⟩

end Doubles

end MarkupTemplates
