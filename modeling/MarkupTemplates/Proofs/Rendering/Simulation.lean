import MarkupTemplates.Proofs.Rendering.Likeness
import MarkupTemplates.Rendering.Template

namespace MarkupTemplates

variable {α β γ δ : Type} {σ : Stage → Stage → Prop}

/-- Wherever the one action comes to an end, the other one does so with a result that matches, if the stages are
related to begin with; and then they are related again. -/
def Render.Simulated (σ : Stage → Stage → Prop) (post : α → β → Prop) (one : Render α) (other : Render β) : Prop :=
  ∀ s s', σ s s' → ∀ result t, one s = some (result, t) →
    ∃ result' t', other s' = some (result', t') ∧ Matched Eq post result result' ∧ σ t t'

namespace Render.Simulated

variable {post : α → β → Prop} {post' : γ → δ → Prop} {one : Render α} {other : Render β}

theorem pure {a : α} {b : β} (holds : post a b) : Simulated σ post (Pure.pure a) (Pure.pure b) := by
  intro s s' related result t ran
  obtain ⟨rfl, rfl⟩ := Prod.mk.inj (Option.some.inj ran)
  exact ⟨_, s', rfl, .ok holds, related⟩

theorem throw (e : RenderError) : Simulated σ post (MonadExcept.throw e) (MonadExcept.throw e) := by
  intro s s' related result t ran
  obtain ⟨rfl, rfl⟩ := Prod.mk.inj (Option.some.inj ran)
  exact ⟨_, s', rfl, .error rfl, related⟩

theorem mono {post' : α → β → Prop} (acts : Simulated σ post one other) (weaker : ∀ a b, post a b → post' a b) :
    Simulated σ post' one other := by
  intro s s' related result t ran
  obtain ⟨result', t', ran', matched, related'⟩ := acts s s' related result t ran
  refine ⟨result', t', ran', ?_, related'⟩
  cases matched with
  | ok holds => exact .ok (weaker _ _ holds)
  | error same => exact .error same

theorem fail {t t' : Template} (named : t.header.name = t'.header.name) (message : Text) :
    Simulated σ post (Render.fail t message) (Render.fail t' message) := by
  rw [Render.fail, Render.fail, named]
  exact throw _

theorem onStage {step : Stage → α × Stage} {step' : Stage → β × Stage}
    (holds : ∀ s s', σ s s' → post (step s).1 (step' s').1 ∧ σ (step s).2 (step' s').2) :
    Simulated σ post (Render.onStage step) (Render.onStage step') := by
  intro s s' related result t ran
  obtain ⟨rfl, rfl⟩ := Prod.mk.inj (Option.some.inj ran)
  obtain ⟨matched, after⟩ := holds s s' related
  exact ⟨_, _, rfl, .ok matched, after⟩

theorem bind {next : α → Render γ} {next' : β → Render δ} (first : Simulated σ post one other)
    (rest : ∀ a b, post a b → Simulated σ post' (next a) (next' b)) :
    Simulated σ post' (one >>= next) (other >>= next') := by
  intro s s' related result t ran
  rw [Render.bind_apply] at ran
  obtain ⟨⟨begun, between⟩, acted, ran⟩ := Option.bind_eq_some_iff.mp ran
  obtain ⟨begun', between', acted', matched, related'⟩ := first s s' related begun between acted
  rw [Render.bind_apply, acted', Option.bind_some]
  cases matched with
  | ok holds => exact rest _ _ holds between between' related' result t ran
  | error same =>
    obtain ⟨rfl, rfl⟩ := Prod.mk.inj (Option.some.inj ran)
    exact ⟨_, between', rfl, .error same, related'⟩

theorem loop {rel : Template → Template → Prop} {step step' : TemplateValue → Render Flow}
    (each : ∀ v w, v.Alike rel w → Simulated σ Eq (step v) (step' w)) {items items' : List TemplateValue}
    (alike : List.Forall₂ (Value.Alike rel) items items') :
    Simulated σ (fun _ _ => True) (Statement.loop step items) (Statement.loop step' items') := by
  induction alike with
  | nil => exact pure trivial
  | cons first _ ih =>
    refine (each _ _ first).bind fun flow flow' same => ?_
    subst same
    cases flow with
    | next => exact ih
    | leave => exact pure trivial

end Render.Simulated

/-- Two frames have the same output, and still do so when it is replaced in both. -/
structure Render.SameOutput (σ : Stage → Stage → Prop) (id id' : FrameId) : Prop where
  read : Render.Simulated σ (fun f g => f.output = g.output) (Render.frame id) (Render.frame id')
  put : ∀ output, Render.Simulated σ (fun _ _ => True)
    (Render.change (·.update id fun f => { f with output := some output }))
    (Render.change (·.update id' fun f => { f with output := some output }))

namespace Render.SameOutput

variable {id id' : FrameId} {t t' : Template}

theorem writing (outputs : SameOutput σ id id') (write : Output → Output) :
    Simulated σ (fun _ _ => True) (Render.writing id write) (Render.writing id' write) := by
  refine outputs.read.bind fun f g same => ?_
  rw [← same]
  cases f.output with
  | none => exact .throw _
  | some output => exact outputs.put _

theorem writeOutput (outputs : SameOutput σ id id') (printing : t.printing = t'.printing) (output : Output) :
    Simulated σ (fun _ _ => True) (Render.writeOutput t id output) (Render.writeOutput t' id' output) := by
  cases output with
  | text content =>
    rw [Render.writeOutput, Render.writeOutput, Render.write, Render.write, printing]
    exact outputs.writing _
  | bytes content =>
    rw [Render.writeOutput, Render.writeOutput, Render.writeBytes, Render.writeBytes, printing]
    exact outputs.writing _

theorem takeOutput (outputs : SameOutput σ id id') (stream : Bool) :
    Simulated σ Eq (Render.takeOutput id stream) (Render.takeOutput id' stream) := by
  refine outputs.read.bind fun f g same => ?_
  rw [← same]
  exact (outputs.put _).bind fun _ _ _ => .pure rfl

end Render.SameOutput

/-- What two templates do in two frames is simulated as far as programs are concerned: the steps that make up the run
of a program, where values may differ in templates that are related. -/
structure Statement.Acts (σ : Stage → Stage → Prop) (rel : Template → Template → Prop) (inner inner' : Runner)
    (t t' : Template) (id id' : FrameId) : Prop where
  write : ∀ text, Render.Simulated σ (fun _ _ => True) (Render.write t id text) (Render.write t' id' text)
  evaluate : ∀ e, Render.Simulated σ (Value.Alike rel) (Statement.evaluate id e) (Statement.evaluate id' e)
  print : ∀ v : Value Empty, Render.Simulated σ (fun _ _ => True)
    (t.writeValue inner id (v.map Empty.elim)) (t'.writeValue inner' id' (v.map Empty.elim))
  embed : ∀ a b, rel a b → Render.Simulated σ (fun _ _ => True) (t.embed inner id a) (t'.embed inner' id' b)
  assign : ∀ var v w, v.Alike rel w →
    Render.Simulated σ (fun _ _ => True) (Statement.assign id var v) (Statement.assign id' var w)
  name : t.header.name = t'.header.name

section

variable {rel : Template → Template → Prop} {inner inner' : Runner} {t t' : Template} {id id' : FrameId}

mutual

theorem simulated_statement (acts : Statement.Acts σ rel inner inner' t t' id id') : (statement : Statement) →
    (∀ name, Program.Has [statement] (.bind name) → Option.Rel rel (t.macro? name) (t'.macro? name)) →
      Render.Simulated σ Eq (Statement.run inner t id statement) (Statement.run inner' t' id' statement)
  | .text content, _ => by
    rw [Statement.run, Statement.run]
    exact (acts.write content).bind fun _ _ _ => .pure rfl
  | .value e, _ => by
    rw [Statement.run, Statement.run]
    refine (acts.evaluate e).bind fun v w alike => ?_
    cases alike with
    | template known => exact (acts.embed _ _ known).bind fun _ _ _ => .pure rfl
    | plain v =>
      have printed := acts.print v
      cases v with
      | template t => exact t.elim
      | _ => exact printed.bind fun _ _ _ => .pure rfl
  | .branches all, macros => by
    rw [Statement.run, Statement.run]
    exact simulated_branches acts all fun condition body member name binds =>
      macros name (.branch List.mem_cons_self member binds)
  | .each var list body, macros => by
    rw [Statement.run, Statement.run]
    refine (acts.evaluate list).bind fun v w alike => ?_
    refine (Render.Simulated.loop (fun item item' known => ?_) alike.items).bind fun _ _ _ => .pure rfl
    refine (acts.assign var item item' known).bind fun _ _ _ => ?_
    exact simulated_all acts body fun name binds => macros name (.each List.mem_cons_self binds)
  | .breakIf condition, _ => by
    rw [Statement.run, Statement.run]
    refine (acts.evaluate condition).bind fun v w alike => ?_
    rw [alike.isTrue]
    exact .pure rfl
  | .set var e, _ => by
    rw [Statement.run, Statement.run]
    refine (acts.evaluate e).bind fun v w alike => ?_
    exact (acts.assign var v w alike).bind fun _ _ _ => .pure rfl
  | .bind name, macros => by
    rw [Statement.run, Statement.run]
    have bound := macros name (.here List.mem_cons_self)
    generalize t.macro? name = found at bound
    generalize t'.macro? name = found' at bound
    cases bound with
    | none =>
      let message := ("unknown macro " : Text) ++ name
      have lacking : Render.Simulated σ (fun _ _ => True) (Render.fail t message : Render Unit)
          (Render.fail t' message : Render Unit) := .fail acts.name _
      exact lacking.bind fun _ _ _ => .pure rfl
    | some known => exact (acts.assign name _ _ (.template known)).bind fun _ _ _ => .pure rfl

theorem simulated_all (acts : Statement.Acts σ rel inner inner' t t' id id') : (p : List Statement) →
    (∀ name, Program.Has p (.bind name) → Option.Rel rel (t.macro? name) (t'.macro? name)) →
      Render.Simulated σ Eq (Statement.runAll inner t id p) (Statement.runAll inner' t' id' p)
  | [], _ => by
    rw [Statement.runAll, Statement.runAll]
    exact .pure rfl
  | first :: rest, macros => by
    rw [Statement.runAll, Statement.runAll]
    have begun := simulated_statement acts first fun name binds =>
      macros name (binds.mono (List.cons_subset_cons first (List.nil_subset rest)))
    have others := simulated_all acts rest fun name binds => macros name (binds.mono (List.subset_cons_self first rest))
    refine begun.bind fun flow flow' same => ?_
    subst same
    cases flow with
    | next => exact others
    | leave => exact .pure rfl

theorem simulated_branches (acts : Statement.Acts σ rel inner inner' t t' id id') :
    (all : List (Option Expression × List Statement)) →
      (∀ condition body, (condition, body) ∈ all → ∀ name, Program.Has body (.bind name) →
        Option.Rel rel (t.macro? name) (t'.macro? name)) →
      Render.Simulated σ Eq (Statement.runBranches inner t id all) (Statement.runBranches inner' t' id' all)
  | [], _ => by
    rw [Statement.runBranches, Statement.runBranches]
    exact .pure rfl
  | (condition, body) :: rest, macros => by
    have begun := simulated_all acts body (macros condition body List.mem_cons_self)
    have others := simulated_branches acts rest fun condition body member =>
      macros condition body (List.mem_cons_of_mem _ member)
    have chosen (holds : Bool) : Render.Simulated σ Eq
        (if holds = true then Statement.runAll inner t id body else Statement.runBranches inner t id rest)
        (if holds = true then Statement.runAll inner' t' id' body else Statement.runBranches inner' t' id' rest) := by
      cases holds with
      | true => exact begun
      | false => exact others
    rw [Statement.runBranches.eq_def, Statement.runBranches.eq_def]
    cases condition with
    | some condition =>
      refine (acts.evaluate condition).bind fun v w alike => ?_
      rw [alike.isTrue]
      exact chosen w.isTrue
    | none => exact chosen true

end

end

end MarkupTemplates
