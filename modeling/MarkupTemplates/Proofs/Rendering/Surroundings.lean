import MarkupTemplates.Proofs.Rendering.Bounds
import MarkupTemplates.Proofs.Rendering.Restoring

namespace MarkupTemplates

theorem Template.OnlyPrograms.doubles {t : Template} (only : t.OnlyPrograms) : Doubles (Selfsame t.Reaches) :=
  Troupe.doubles ⟨only, fun _ reached _ binds _ found => .bound reached binds found⟩

section

variable {rel : Template → Template → Prop} {t : Template} {parameters : Option Parameters}

/-- What is in the output of a new frame in the end depends on nothing else than the template and the parameters. -/
theorem Doubles.settled (doubles : Doubles rel) (own : rel t t) (free : (parameters.getD []).TemplateFree) :
    ∃ (ends : Nat → Bool) (outcome : Except RenderError Output), ∀ depth s id, s.Fresh id t parameters →
      (t.fill (Template.runWithin depth) id).result s = if ends depth then some outcome else none := by
  have new := Stage.fresh_add {} none t parameters
  have nonempty : Nonempty (Except RenderError Output) := ⟨.error .noOutput⟩
  obtain ⟨ends, outcome, settled⟩ := exists_settled fun depth _ come =>
    doubles.result_fill (Nat.le_succ depth) own (free.mirrored rel) new new come
  exact ⟨ends, outcome, fun depth s id fresh => (doubles.fill_eq own free fresh new).trans (settled depth)⟩

/-- Nothing but new frames come of an evaluation in a frame. -/
theorem Doubles.kept_evaluateIn (doubles : Doubles rel) (own : rel t t)
    (free : (parameters.getD []).TemplateFree) (depth : Nat) (parent : Option FrameId) {s after : Stage}
    {result : Except RenderError Output}
    (evaluated : t.evaluateIn (Template.runWithin depth) parent parameters s = some (result, after)) :
    s.Kept (fun _ => False) after := by
  have parallel := doubles.parallel (Nat.le_refl depth)
  have inside (s : Stage) (parent : FrameId)
      (evaluated : t.evaluateIn (Template.runWithin depth) (some parent) parameters s = some (result, after)) :
      s.Kept (fun _ => False) after := by
    obtain ⟨_, _, kept, _⟩ :=
      @Parallel.evaluateIn _ s s _ _ t t _ _ parallel doubles own (free.mirrored rel) parent parent _ _ evaluated
    exact kept
  cases parent with
  | some parent => exact inside s parent evaluated
  | none => exact (s.kept_add none none none none _).trans (inside s.addRoot.2 s.frames.size evaluated)

end

/-- Rendering a template leaves its surroundings as they were, provided that the scripts that come to be bound leave
everything alone but the frame that they are run in: whatever the body comes to and whether or not the target takes it,
all frames are the same as before, and so is the ambient one, if any. The surroundings have no part in what comes of it,
either, as long as no script is reached: none is if only templates with programs are imported, or if no mark that
encloses code stands in the source or in the value of an attribute. Then an evaluation in a frame does nothing to the
stage but for new frames, and comes to the same as one in the ambient frame, wherever that is and whatever is ambient.
-/
theorem surroundings_play_no_part {parser : Parser TemplateClass} (names : parser.names = .default)
    (demo : parser.dialect = Program.dialect) (compiler : parser.compiler = Program.compiler) {stream : Bool}
    {resource : Resource} {events : List Event} {template : ParsedTemplate TemplateClass} {c : TemplateClass}
    (compiled : parser.compile stream resource = (events, .ok (template, c))) {args : TemplateArguments} {t : Template}
    (made : c.instantiate args = .ok t) {parameters : Option Parameters} (free : (parameters.getD []).TemplateFree) :
    (t.ConsiderateScripts → ∀ depth, (t.evaluate (Template.runWithin depth) parameters).Restores ∧
      (∀ accepts, (t.renderText depth parameters accepts).Restores) ∧
      ∀ refusal, (t.renderBytes depth parameters refusal).Restores) ∧
    (resource.source.Unmarked ∨ (∀ name b, Dictionary.get? args.imported name = some b → b.OnlyPrograms) →
      t.OnlyPrograms) ∧
    (t.OnlyPrograms → t.ConsiderateScripts ∧
      (∀ depth parent s result after,
        t.evaluateIn (Template.runWithin depth) parent parameters s = some (result, after) →
          s.Kept (fun _ => False) after) ∧
      ∃ (ends : Nat → Bool) (outcome : Except RenderError Output), ∀ depth s,
        (t.evaluate (Template.runWithin depth) parameters).result s = (if ends depth then some outcome else none) ∧
        ∀ parent, (t.evaluateIn (Template.runWithin depth) parent parameters).result s =
          if ends depth then some outcome else none) := by
  have stems := Template.StemsFrom.of_compile compiler compiled made
  have source := (Parser.parsed_from (Parser.compile_ok compiled).1).1
  refine ⟨fun considerate depth => ?_, fun condition => ?_, fun only => ?_⟩
  · have restores := (sparing_runWithin considerate depth).evaluate .self (free.mirrored _)
    refine ⟨restores, fun accepts => restores.bind fun output s result after looked => ?_,
      fun refusal => restores.bind fun output s result after looked => ?_⟩
    · cases accepted : accepts (t.textOf output) <;> rw [accepted] at looked <;> cases looked <;> rfl
    · cases refused : refusal (t.bytesOf output) <;> rw [refused] at looked <;> cases looked <;> rfl
  · exact stems.onlyPrograms demo (names ▸ DirectiveNames.plain_var) (names ▸ DirectiveNames.isAttributeWord_var)
      (source ▸ condition)
  · have doubles := only.doubles
    have own : Selfsame t.Reaches t t := ⟨rfl, .self⟩
    obtain ⟨ends, outcome, settled⟩ := doubles.settled own free
    refine ⟨only.considerateScripts, fun depth parent s result after => doubles.kept_evaluateIn own free depth parent,
      ends, outcome, fun depth s => ⟨?_, fun parent => ?_⟩⟩
    · rw [Template.result_evaluate]
      exact settled depth _ _ (s.fresh_push t parameters)
    · cases parent with
      | some parent => exact settled depth _ _ (s.fresh_add (some parent) t parameters)
      | none => exact settled depth _ _ (s.addRoot.2.fresh_add (some s.frames.size) t parameters)

/-- A template with a macro is rendered inside a root into a target that takes nothing, and evaluated where nothing is
ambient. -/
theorem surroundings_play_no_part_for_refused_text :
    let parser : Parser TemplateClass := ⟨.default, Program.dialect, Program.compiler⟩
    let resource : Resource := { name := "t", source := "<b macro='m'>${x}</b>${m}" }
    let parameters : Option Parameters := some [("x", .bool true)]
    let s : Stage := (Stage.current {}).2
    resource.source.Unmarked ∧ (parameters.getD []).TemplateFree ∧ s.ambient = some 0 ∧ ∃ events template c t after,
      parser.compile false resource = (events, .ok (template, c)) ∧ c.instantiate {} = .ok t ∧ t.OnlyPrograms ∧
      t.renderText 2 parameters (fun _ => false) s = some (.error .textRefused, after) ∧ after.ambient = some 0 ∧
      (t.evaluate (Template.runWithin 2) parameters).result s = some (.ok (.text "<b>true</b>")) ∧
      (t.evaluateIn (Template.runWithin 2) none parameters).result {} = some (.ok (.text "<b>true</b>")) := by
  intro parser resource parameters s
  have unmarked : resource.source.Unmarked := by decide +kernel
  have free : (parameters.getD []).TemplateFree := by
    rintro name v member t rfl
    cases List.mem_singleton.mp member
  have rendered : ((parser.compile false resource).2.toOption.bind fun (_, c) =>
      (c.instantiate {}).toOption.map fun t => ((t.renderText 2 parameters fun _ => false).result s,
        (t.evaluate (Template.runWithin 2) parameters).result s)) =
      some (some (.error .textRefused), some (.ok (.text "<b>true</b>"))) := by
    decide +kernel
  obtain ⟨⟨template, c⟩, compiled, rest⟩ := Option.bind_eq_some_iff.mp rendered
  obtain ⟨t, made, results⟩ := Option.map_eq_some_iff.mp rest
  obtain ⟨refused, evaluated⟩ := Prod.mk.inj results
  obtain ⟨⟨_, after⟩, ran, rfl⟩ := Option.map_eq_some_iff.mp refused
  have whole : parser.compile false resource = (_, .ok (template, c)) := Prod.ext rfl (ok_of_toOption compiled)
  obtain ⟨restores, programs, all⟩ := surroundings_play_no_part rfl rfl rfl whole (ok_of_toOption made) free
  have only := programs (.inl unmarked)
  obtain ⟨considerate, _, ends, outcome, settled⟩ := all only
  have spared := (restores considerate 2).2.1 (fun _ => false) s _ after ran
  have inside := (settled 2 s).1
  have alone := (settled 2 {}).2 none
  exact ⟨unmarked, free, rfl, _, template, c, t, after, whole, ok_of_toOption made, only, ran, spared.ambient,
    evaluated, alone.trans (inside.symm.trans evaluated)⟩

/-- Two scripts from outside, one or the other of which is bound by a piece of code in the text of a source. The first
one only tells how the ambient frame relates to its own: it tells different things, depending on how the template is
evaluated. The other one leaves the ambient frame, and no frame is ambient any more after the rendering. -/
theorem surroundings_seen_by_script :
    let parser : Parser TemplateClass := ⟨.default, Program.dialect, Program.compiler⟩
    let resource : Resource := { name := "t", source := "\x020:bind:x\x03${x}" }
    let observer : TemplateClass := ⟨{ className := "observer" }, .script [.writeAmbient], []⟩
    let intruder : TemplateClass := ⟨{ className := "intruder" }, .script [.pop], []⟩
    let s : Stage := (Stage.current {}).2
    s.ambient = some 0 ∧ ∃ o i events template c t t' after, observer.instantiate {} = .ok o ∧
      intruder.instantiate {} = .ok i ∧ parser.compile false resource = (events, .ok (template, c)) ∧
      c.instantiate { imported := [("x", o)] } = .ok t ∧ c.instantiate { imported := [("x", i)] } = .ok t' ∧
      t.ConsiderateScripts ∧ (t.evaluate (Template.runWithin 2) none).result {} = some (.ok (.text "other")) ∧
      (t.evaluateIn (Template.runWithin 2) none none).result {} = some (.ok (.text "none")) ∧
      t'.renderText 2 none (fun _ => true) s = some (.ok [], after) ∧ after.ambient = none := by
  intro parser resource observer intruder s
  have rendered : ((observer.instantiate {}).toOption.bind fun o => (intruder.instantiate {}).toOption.bind fun i =>
      (parser.compile false resource).2.toOption.bind fun (_, c) =>
        (c.instantiate { imported := [("x", o)] }).toOption.bind fun t =>
          (c.instantiate { imported := [("x", i)] }).toOption.map fun t' =>
            (decide ((t.evaluate (Template.runWithin 2) none).result {} = some (.ok (.text "other")) ∧
                (t.evaluateIn (Template.runWithin 2) none none).result {} = some (.ok (.text "none"))),
              (t'.renderText 2 none (fun _ => true) s).map fun (result, after) => (result, after.ambient))) =
      some (true, some (.ok [], none)) := by
    decide +kernel
  obtain ⟨o, observes, rest⟩ := Option.bind_eq_some_iff.mp rendered
  obtain ⟨i, intrudes, rest⟩ := Option.bind_eq_some_iff.mp rest
  obtain ⟨⟨template, c⟩, compiled, rest⟩ := Option.bind_eq_some_iff.mp rest
  obtain ⟨t, made, rest⟩ := Option.bind_eq_some_iff.mp rest
  obtain ⟨t', made', results⟩ := Option.map_eq_some_iff.mp rest
  obtain ⟨told, left⟩ := Prod.mk.inj results
  obtain ⟨ambient, alone⟩ := of_decide_eq_true told
  obtain ⟨⟨_, after⟩, ran, eq⟩ := Option.map_eq_some_iff.mp left
  obtain ⟨rfl, outside⟩ := Prod.mk.inj eq
  have whole : parser.compile false resource = (_, .ok (template, c)) := Prod.ext rfl (ok_of_toOption compiled)
  have own : o.ofClass.body = .script [.writeAmbient] :=
    congrArg TemplateClass.body (TemplateClass.instantiate_ok (ok_of_toOption observes)).1
  have modest : ∀ step ∈ [ScriptStep.writeAmbient], step.Modest := fun step member => by
    rw [List.mem_singleton.mp member]
    trivial
  have considerate : t.ConsiderateScripts := by
    have stems := Template.StemsFrom.of_compile rfl whole (ok_of_toOption made)
    intro a reached steps body
    rcases stems.reaches_cases reached with ⟨path, reached⟩ | ⟨_, name, b, _, _, _, imported, reached⟩
    · obtain ⟨_, _, _, program⟩ := stems.program_at reached
      cases body.symm.trans program
    · obtain rfl : o = b := (Prod.mk.inj (List.mem_singleton.mp (Dictionary.mem_of_get? imported))).2.symm
      obtain rfl := reached.eq_of_script own
      exact Template.considerate_of_modest own modest
  exact ⟨rfl, o, i, _, template, c, t, t', after, ok_of_toOption observes, ok_of_toOption intrudes, whole,
    ok_of_toOption made, ok_of_toOption made', considerate, ambient, alone, ran, outside⟩

end MarkupTemplates
