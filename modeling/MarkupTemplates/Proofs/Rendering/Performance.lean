import MarkupTemplates.Proofs.Charset.Encoding
import MarkupTemplates.Proofs.Dictionary
import MarkupTemplates.Proofs.Frame.Stage
import MarkupTemplates.Proofs.Rendering.Account
import MarkupTemplates.Rendering.Template

namespace MarkupTemplates

namespace Printing

/-- What a deed comes to: a value is printed and passes the filter. -/
def printed (p : Printing) : Deed → Text
  | .literal t => t
  | .shown v => p.filtered (Piece.joined [] (p.format v))

def told (p : Printing) (deeds : List Deed) : Text := deeds.flatMap p.printed

end Printing

/-- The output of a rendering, given what it does. A stream writes bytes. -/
def Output.told (p : Printing) (stream : Bool) (deeds : List Deed) : Output :=
  if stream then .bytes (p.serialize (p.told deeds)) else .text (p.told deeds)

/-- The program of a template that has one. -/
def Template.program (t : Template) : Program :=
  match t.ofClass.body with
  | .program p => p
  | .script _ => []

def Template.realm : Realm Template := ⟨Template.program, Template.macro?, Template.same⟩

/-- The value is no template, or it is one of these. -/
def Value.Within {T : Type} (member : T → Prop) (v : Value T) : Prop := ∀ t, v = .template t → member t

/-- Templates with programs that include no others. -/
structure Troupe (member : Template → Prop) : Prop where
  program : ∀ t, member t → ∃ p, t.ofClass.body = .program p
  macros : ∀ t, member t → ∀ name, t.program.Has (.bind name) → ∀ found, t.macro? name = some found → member found

/-- Such templates that print values alike. -/
structure Company (printing : Printing) (stream : Bool) (member : Template → Prop) : Prop extends Troupe member where
  printing : ∀ t, member t → t.printing = printing
  stream : ∀ t, member t → t.header.stream = stream

/-- A frame shows how far a rendering has come. -/
structure Stage.Shows (printing : Printing) (stream : Bool) (member : Template → Prop) (id : FrameId) (s : Stage)
    (τ : Progress Template) : Prop where
  known : id < s.frames.size
  scope : ∀ name, ((s.frame id).get? name).getD .null = τ.scope name
  ordered : (s.frame id).locals.Ordered
  output : (s.frame id).output = some (.told printing stream τ.deeds)
  within : ∀ name, (τ.scope name).Within member

/-- What is told of a template that lacks a macro. -/
def UnknownMacro.error (e : UnknownMacro Template) : RenderError :=
  .failed e.template.header.name (("unknown macro " : Text) ++ e.name)

section

variable {printing : Printing} {stream : Bool} {member : Template → Prop}

@[simp] theorem mapError_ok {ε ε' α : Type} (f : ε → ε') (a : α) :
    (Except.ok a : Except ε α).mapError f = .ok a := rfl

@[simp] theorem mapError_error {ε ε' α : Type} (f : ε → ε') (e : ε) :
    (Except.error e : Except ε α).mapError f = .error (f e) := rfl

/-- An action in a frame does what the account tells, and nothing else. -/
def Follows (printing : Printing) (stream : Bool) (member : Template → Prop) (id : FrameId) {α : Type}
    (post : α → Prop) (action : Render α) (account : Account Template α) : Prop :=
  ∀ s τ, s.Shows printing stream member id τ →
    match account τ with
    | none => action s = none
    | some (result, τ') => (∀ a, result = .ok a → post a) ∧
        ∃ s', action s = some (result.mapError UnknownMacro.error, s') ∧
          s'.Shows printing stream member id τ' ∧ s.Kept (· = id) s'

namespace Follows

variable {id : FrameId} {α β : Type}

theorem pure {post : α → Prop} {a : α} (holds : post a) :
    Follows printing stream member id post (Pure.pure a) (Pure.pure a) :=
  fun s _ shows => ⟨fun _ eq => Except.ok.inj eq ▸ holds, s, rfl, shows, .refl _ s⟩

theorem bind {post : α → Prop} {post' : β → Prop} {action : Render α} {account : Account Template α}
    {next : α → Render β} {next' : α → Account Template β}
    (first : Follows printing stream member id post action account)
    (rest : ∀ a, post a → Follows printing stream member id post' (next a) (next' a)) :
    Follows printing stream member id post' (action >>= next) (account >>= next') := by
  intro s τ shows
  have one := first s τ shows
  rw [Account.bind_apply, Render.bind_apply]
  cases told : account τ with
  | none =>
    rw [told] at one
    rw [show action s = none from one]
    rfl
  | some done =>
    obtain ⟨result, τ'⟩ := done
    rw [told] at one
    obtain ⟨holds, s', acted, shows', kept⟩ := one
    rw [acted]
    cases result with
    | error e => exact ⟨fun _ eq => (by cases eq), s', rfl, shows', kept⟩
    | ok a =>
      have two := rest a (holds a rfl) s' τ' shows'
      simp only [Option.bind_some, mapError_ok]
      cases told' : next' a τ' with
      | none =>
        rw [told'] at two
        exact two
      | some done =>
        rw [told'] at two
        obtain ⟨holds', s'', acted', shows'', kept'⟩ := two
        exact ⟨holds', s'', acted', shows'', kept.trans kept'⟩

end Follows

theorem Output.writeText_told (p : Printing) (stream : Bool) (deeds : List Deed) (deed : Deed) :
    (Output.told p stream deeds).writeText (p.printed deed) p.outputCharset = .told p stream (deeds ++ [deed]) := by
  cases stream with
  | false =>
    simp only [told, writeText, Bool.false_eq_true, if_false, Printing.told, List.flatMap_append, List.flatMap_cons,
      List.flatMap_nil, List.append_nil]
  | true =>
    simp only [told, writeText, if_true, Printing.told, List.flatMap_append, List.flatMap_cons, List.flatMap_nil,
      List.append_nil, Printing.serialize, Printing.charset, Charset.encode_append]

theorem Render.writing_apply {id : FrameId} {s : Stage} {output : Output} (has : (s.frame id).output = some output)
    (write : Output → Output) :
    Render.writing id write s = some (.ok (), s.update id fun f => { f with output := some (write output) }) := by
  have read : Render.frame id s = some (.ok (s.frame id), s) := rfl
  rw [Render.writing, Render.bind_apply, read]
  simp only [Option.bind_some, has]
  rfl

/-- Adding to the output changes nothing else in a frame. -/
theorem Stage.Shows.writing {id : FrameId} {s : Stage} {τ : Progress Template} {deeds : List Deed}
    {output : Output} (shows : s.Shows printing stream member id τ)
    (written : output = .told printing stream (τ.deeds ++ deeds)) :
    let s' := s.update id fun f => { f with output := some output }
    s'.Shows printing stream member id { τ with deeds := τ.deeds ++ deeds } ∧ s.Kept (· = id) s' := by
  intro s'
  have own : s'.frame id = { s.frame id with output := some output } := by
    rw [Stage.frame_update s shows.known, if_pos rfl]
  refine ⟨⟨?_, fun name => ?_, ?_, ?_, shows.within⟩, Stage.kept_update shows.known rfl⟩
  · rw [Stage.size_update]
    exact shows.known
  · rw [own]
    exact shows.scope name
  · rw [own]
    exact shows.ordered
  · rw [own, written]

theorem follows_write {id : FrameId} {t : Template} (company : Company printing stream member) (own : member t)
    {deed : Deed} {text : Text} (eq : printing.printed deed = text) :
    Follows printing stream member id (fun _ => True) (Render.write t id text) (Account.adds [deed]) := by
  intro s τ shows
  refine ⟨fun _ _ => trivial, ?_⟩
  have written := Output.writeText_told printing stream τ.deeds deed
  obtain ⟨shows', kept⟩ := @Stage.Shows.writing _ _ _ _ _ _ [deed] _ shows written
  refine ⟨_, ?_, shows', kept⟩
  rw [Render.write, Render.writing_apply shows.output, company.printing t own, eq]
  rfl

theorem Operand.eval_within {lookup : Text → TemplateValue} (within : ∀ name, (lookup name).Within member)
    (o : Operand) : (o.eval lookup).Within member := by
  cases o with
  | literal l =>
    intro t eq
    cases l <;> cases eq
  | name n => exact within n
  | not o =>
    intro t eq
    cases eq

/-- An expression comes to a template only if a name in it stands for that. -/
theorem Expression.eval_within {lookup : Text → TemplateValue} (within : ∀ name, (lookup name).Within member)
    (e : Expression) (same : Template → Template → Bool) : (e.eval same lookup).Within member := by
  unfold eval
  split
  · exact Operand.eval_within within e.left
  · intro t eq
    cases eq

theorem Value.items_within {v : TemplateValue} (within : v.Within member) : ∀ item ∈ v.items, item.Within member := by
  intro item inside
  unfold items at inside
  split at inside
  · exact absurd inside List.not_mem_nil
  · obtain ⟨_, _, rfl⟩ := List.mem_map.mp inside
    intro t eq
    cases eq
  · split at inside
    · obtain ⟨_, _, rfl⟩ := List.mem_map.mp inside
      intro t eq
      cases eq
    · rw [List.mem_singleton.mp inside]
      exact within

theorem follows_evaluate {id : FrameId} (e : Expression) :
    Follows printing stream member id (Value.Within member) (Statement.evaluate id e)
      (Account.evaluate Template.realm e) := by
  intro s τ shows
  have scope : (fun name => ((s.frame id).get? name).getD .null) = τ.scope := funext shows.scope
  refine ⟨fun v eq => ?_, s, ?_, shows, .refl _ s⟩
  · rw [← Except.ok.inj eq]
    exact e.eval_within shows.within Template.same
  · rw [← scope]
    rfl

theorem follows_assign {id : FrameId} (var : Text) {v : TemplateValue} (within : v.Within member) :
    Follows printing stream member id (fun _ => True) (Statement.assign id var v) (Account.assign var v) := by
  intro s τ shows
  have own : (s.update id (·.insert var v)).frame id = (s.frame id).insert var v := by
    rw [Stage.frame_update s shows.known, if_pos rfl]
  refine ⟨fun _ _ => trivial, _, rfl, ⟨?_, fun name => ?_, ?_, ?_, fun name => ?_⟩,
    Stage.kept_update shows.known rfl⟩
  · rw [Stage.size_update]
    exact shows.known
  · show _ = if var = name then v else τ.scope name
    rw [own, ← shows.scope name, Frame.get?, Frame.insert, Dictionary.get?_insert]
    by_cases same : var = name
    · rw [if_pos same, if_pos same]
      rfl
    · rw [if_neg same, if_neg same]
      rfl
  · rw [own]
    exact shows.ordered.insert var v
  · rw [own]
    exact shows.output
  · show Value.Within member (if var = name then v else τ.scope name)
    split
    · exact within
    · exact shows.within name

/-- Templates that are run by `inner` do what is told of them. -/
def Performs (printing : Printing) (stream : Bool) (member : Template → Prop) (inner : Runner)
    (told : Account.Included Template) : Prop :=
  ∀ t, member t → ∀ id s scope, s.Shows printing stream member id ⟨scope, []⟩ →
    match told t scope with
    | none => inner t id s = none
    | some result => ∃ s', inner t id s = some ((result.map fun _ => ()).mapError UnknownMacro.error, s') ∧
        s.Kept (· = id) s' ∧ ∀ deeds, result = .ok deeds → (s'.frame id).output = some (.told printing stream deeds)

/-- The values that parameters have. -/
def Parameters.scope (parameters : Parameters) : Scope Template := fun name => (parameters.get? name).getD .null

/-- A new frame shows that nothing has been done yet. -/
theorem Stage.shows_add (s : Stage) (parent : Option FrameId) (t : Template) {parameters : Option Parameters}
    (within : ∀ name, (Parameters.scope (parameters.getD []) name).Within member) :
    (s.add parent (some t) parameters (some (.empty stream))).2.Shows printing stream member s.frames.size
      ⟨Parameters.scope (parameters.getD []), []⟩ := by
  obtain ⟨depth, own⟩ := s.frame_add_new parent (some t) parameters (some (.empty stream))
  refine ⟨s.lt_size_add _ _ _ _, fun name => ?_, ?_, ?_, within⟩
  · rw [own]
    rfl
  · rw [own]
    exact List.Pairwise.nil
  · rw [own]
    cases stream with
    | false => rfl
    | true =>
      have nothing (charset : Charset) : charset.encode [] = [] := by cases charset <;> rfl
      simp only [Output.empty, Output.told, if_true, Printing.told, List.flatMap_nil, Printing.serialize, nothing]

/-- A template that is run in a new frame leaves there what is told of it. -/
theorem Performs.taken {inner : Runner} {told : Account.Included Template}
    (performs : Performs printing stream member inner told) {t : Template} (own : member t) {s : Stage} {id : FrameId}
    {scope : Scope Template} (shows : s.Shows printing stream member id ⟨scope, []⟩) :
    match told t scope with
    | none => (inner t id >>= fun _ => Render.takeOutput id stream) s = none
    | some result => ∃ s', (inner t id >>= fun _ => Render.takeOutput id stream) s =
        some ((result.map (Output.told printing stream)).mapError UnknownMacro.error, s') ∧
        s.Kept (· = id) s' := by
  rw [Render.bind_apply]
  have ran := performs t own id s scope shows
  cases known : told t scope with
  | none =>
    rw [known] at ran
    rw [show inner t id s = none from ran]
    rfl
  | some result =>
    rw [known] at ran
    obtain ⟨s', acted, kept, output⟩ := ran
    rw [acted]
    cases result with
    | error e => exact ⟨s', rfl, kept⟩
    | ok deeds =>
      refine ⟨s'.update id fun f => { f with output := some (Output.told printing stream deeds).cleared }, ?_,
        kept.trans (Stage.kept_update (Nat.lt_of_lt_of_le shows.known kept.size) rfl)⟩
      have taken : Render.takeOutput id stream s' = some (.ok ((s'.frame id).output.getD (.empty stream)),
          s'.update id fun f =>
            { f with output := some ((s'.frame id).output.getD (.empty stream)).cleared }) := rfl
      simp only [Option.bind_some, Except.map, mapError_ok, taken, output deeds rfl, Option.getD_some]

/-- A template that is evaluated in a frame of its own gives the output that is told of it. -/
theorem performs_evaluateIn {inner : Runner} {told : Account.Included Template}
    (company : Company printing stream member) (performs : Performs printing stream member inner told)
    {t : Template} (own : member t) (parent : FrameId) {parameters : Option Parameters}
    (within : ∀ name, (Parameters.scope (parameters.getD []) name).Within member) (s : Stage) :
    match told t (Parameters.scope (parameters.getD [])) with
    | none => t.evaluateIn inner (some parent) parameters s = none
    | some result => ∃ s', t.evaluateIn inner (some parent) parameters s =
        some ((result.map (Output.told printing stream)).mapError UnknownMacro.error, s') ∧
        s.Kept (fun _ => False) s' := by
  have start : t.evaluateIn inner (some parent) parameters s =
      (inner t s.frames.size >>= fun _ => Render.takeOutput s.frames.size t.header.stream)
        (s.add (some parent) (some t) parameters (some (.empty t.header.stream))).2 := rfl
  rw [start, company.stream t own]
  have taken := performs.taken own (s.shows_add (some parent) t within)
  have added := s.kept_add (some parent) (some t) parameters (some (.empty stream)) fun _ => False
  cases known : told t (Parameters.scope (parameters.getD [])) with
  | none =>
    rw [known] at taken
    exact taken
  | some result =>
    rw [known] at taken
    obtain ⟨s', acted, kept⟩ := taken
    exact ⟨s', acted, added.new kept⟩

end

end MarkupTemplates
