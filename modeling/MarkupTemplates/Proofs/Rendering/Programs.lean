import MarkupTemplates.Proofs.Rendering.Performance

namespace MarkupTemplates

section

variable {printing : Printing} {stream : Bool} {member : Template → Prop} {inner : Runner}
  {told : Account.Included Template} {id : FrameId}

theorem Output.writeOutput_told (p : Printing) (stream : Bool) (deeds more : List Deed) :
    (match Output.told p stream more with
      | .text content => (Output.told p stream deeds).writeText content p.outputCharset
      | .bytes content => (Output.told p stream deeds).writeBytes content p.outputCharset) =
      .told p stream (deeds ++ more) := by
  cases stream with
  | false => simp only [told, writeText, Bool.false_eq_true, if_false, Printing.told, List.flatMap_append]
  | true =>
    simp only [told, writeBytes, if_true, Printing.told, List.flatMap_append, Printing.serialize,
      Charset.encode_append]

theorem Frame.get?_snapshot {f : Frame} (ordered : f.locals.Ordered) (name : Text) :
    f.snapshot.get? name = f.get? name := Dictionary.get?_overlay f.given ordered name

/-- What an included template writes becomes part of the output of the one that includes it. -/
theorem follows_embed {t other : Template} (company : Company printing stream member)
    (performs : Performs printing stream member inner told) (own : member t) (known : member other) :
    Follows printing stream member id (fun _ => True) (t.embed inner id other) (Account.embed told other) := by
  intro s τ shows
  have scope : (s.frame id).snapshot.scope = τ.scope := by
    funext name
    rw [← shows.scope name, ← Frame.get?_snapshot shows.ordered]
    rfl
  have evaluated := @performs_evaluateIn _ _ _ _ _ company performs other known id (some (s.frame id).snapshot)
    (fun name => by rw [Option.getD_some, scope]; exact shows.within name) s
  rw [Option.getD_some, scope] at evaluated
  have start : t.embed inner id other s = (other.evaluateIn inner (some id) (some (s.frame id).snapshot) >>=
      Render.writeOutput t id) s := rfl
  rw [start, Render.bind_apply, Account.embed]
  cases included : told other τ.scope with
  | none =>
    rw [included] at evaluated
    rw [show other.evaluateIn inner (some id) _ s = none from evaluated]
    rfl
  | some result =>
    rw [included] at evaluated
    obtain ⟨s', acted, kept⟩ := evaluated
    have known' := Nat.lt_of_lt_of_le shows.known kept.size
    have frame := kept.others id shows.known (fun none => none)
    have shows' : s'.Shows printing stream member id τ :=
      ⟨known', fun name => by rw [frame]; exact shows.scope name, by rw [frame]; exact shows.ordered,
        by rw [frame]; exact shows.output, shows.within⟩
    have kept' : s.Kept (· = id) s' := kept.mono fun _ none => none.elim
    rw [acted]
    cases result with
    | error e => exact ⟨fun _ _ => trivial, s', rfl, shows', kept'⟩
    | ok deeds =>
      have told := Output.writeOutput_told printing stream τ.deeds deeds
      obtain ⟨shows'', changed⟩ := @Stage.Shows.writing _ _ _ _ _ _ deeds _ shows' told
      refine ⟨fun _ _ => trivial, _, ?_, shows'', kept'.trans changed⟩
      simp only [Option.bind_some, Except.map, mapError_ok]
      have written := @Render.writing_apply id s' _ shows'.output
      cases Output.told printing stream deeds with
      | text content =>
        show Render.write t id content s' = _
        rw [Render.write, written, company.printing t own]
      | bytes content =>
        show Render.writeBytes t id content s' = _
        rw [Render.writeBytes, written, company.printing t own]

/-- A value that is no template is printed without any template being rendered. -/
theorem assemble_plain {v : TemplateValue} (plain : ∀ t, v ≠ .template t) (pieces : List Piece) :
    Template.assemble inner v pieces = Pure.pure (Piece.joined [] pieces) := by
  induction pieces with
  | nil => rfl
  | cons piece pieces ih =>
    cases piece with
    | text t =>
      rw [Template.assemble, ih]
      rfl
    | evaluated =>
      cases v with
      | template t => exact absurd rfl (plain t)
      | _ =>
        simp only [Template.assemble, ih]
        rfl

theorem writeValue_plain (t : Template) {v : TemplateValue} (plain : ∀ t, v ≠ .template t) :
    t.writeValue inner id v =
      Render.write t id (t.printing.filtered (Piece.joined [] (t.printing.format v.shown))) := by
  have shown : v.map Template.identity = v.shown := by
    cases v with
    | template t => exact absurd rfl (plain t)
    | _ => rfl
  rw [Template.writeValue, Template.format, assemble_plain plain, shown]
  rfl

theorem follows_writeValue {t : Template} (company : Company printing stream member) (own : member t)
    {v : TemplateValue} (plain : ∀ t, v ≠ .template t) :
    Follows printing stream member id (fun _ => True) (t.writeValue inner id v) (Account.adds [.shown v.shown]) := by
  rw [writeValue_plain t plain, company.printing t own]
  exact follows_write company own rfl

theorem follows_loop {step : TemplateValue → Render Flow} {step' : TemplateValue → Account Template Flow}
    (one : ∀ item, item.Within member → Follows printing stream member id (fun _ => True) (step item) (step' item))
    (items : List TemplateValue) (within : ∀ item ∈ items, item.Within member) :
    Follows printing stream member id (fun _ => True) (Statement.loop step items) (Account.loop step' items) := by
  induction items with
  | nil => exact .pure trivial
  | cons item items ih =>
    refine (one item (within item List.mem_cons_self)).bind fun flow _ => ?_
    cases flow with
    | next => exact ih fun later member => within later (List.mem_cons_of_mem _ member)
    | leave => exact .pure trivial

/-- Every macro that the statements bind is a member. -/
def Binding (member : Template → Prop) (t : Template) (p : Program) : Prop :=
  ∀ name, p.Has (.bind name) → ∀ found, t.macro? name = some found → member found

theorem Binding.mono {t : Template} {p q : Program} (binding : Binding member t q)
    (within : ∀ statement, p.Has statement → q.Has statement) : Binding member t p :=
  fun name has => binding name (within _ has)

mutual

theorem follows_statement (company : Company printing stream member)
    (performs : Performs printing stream member inner told) {t : Template} (own : member t) :
    (statement : Statement) → Binding member t [statement] →
      Follows printing stream member id (fun _ => True) (Statement.run inner t id statement)
        (Statement.account Template.realm told t statement)
  | .text content, _ => by
    rw [Statement.run, Statement.account]
    have literal : printing.printed (.literal content) = content := rfl
    exact (follows_write company own literal).bind fun _ _ => .pure trivial
  | .value e, _ => by
    rw [Statement.run, Statement.account]
    refine (follows_evaluate e).bind fun v within => ?_
    cases v with
    | template other =>
      exact (follows_embed company performs own (within other rfl)).bind fun _ _ => .pure trivial
    | _ => exact (follows_writeValue company own fun _ eq => by cases eq).bind fun _ _ => .pure trivial
  | .branches all, binding => by
    rw [Statement.run, Statement.account]
    refine follows_branches company performs own all fun condition body member => ?_
    exact binding.mono fun _ has => .branch List.mem_cons_self member has
  | .each var list body, binding => by
    rw [Statement.run, Statement.account]
    refine (follows_evaluate list).bind fun v within => ?_
    refine (follows_loop (fun item known => ?_) v.items (Value.items_within within)).bind fun _ _ => .pure trivial
    refine (follows_assign var known).bind fun _ _ => ?_
    exact follows_all company performs own body (binding.mono fun _ has => .each List.mem_cons_self has)
  | .breakIf condition, _ => by
    rw [Statement.run, Statement.account]
    exact (follows_evaluate condition).bind fun _ _ => .pure trivial
  | .set var e, _ => by
    rw [Statement.run, Statement.account]
    exact (follows_evaluate e).bind fun v within => (follows_assign var within).bind fun _ _ => .pure trivial
  | .bind name, binding => by
    rw [Statement.run, Statement.account, show Template.realm.macro? t name = t.macro? name from rfl]
    cases found : t.macro? name with
    | some other =>
      have known := binding name (.here List.mem_cons_self) other found
      refine (follows_assign name fun t eq => ?_).bind fun _ _ => .pure trivial
      exact Value.template.inj eq ▸ known
    | none =>
      intro s τ shows
      exact ⟨fun _ eq => (by cases eq), s, rfl, shows, .refl _ s⟩

theorem follows_all (company : Company printing stream member)
    (performs : Performs printing stream member inner told) {t : Template} (own : member t) :
    (p : List Statement) → Binding member t p →
      Follows printing stream member id (fun _ => True) (Statement.runAll inner t id p)
        (Statement.accountAll Template.realm told t p)
  | [], _ => by
    rw [Statement.runAll, Statement.accountAll]
    exact .pure trivial
  | first :: rest, binding => by
    rw [Statement.runAll, Statement.accountAll]
    have one := follows_statement company performs own first
      (binding.mono fun _ has => has.mono (List.cons_subset_cons first (List.nil_subset rest)))
    have others := follows_all company performs own rest
      (binding.mono fun _ has => has.mono (List.subset_cons_self first rest))
    refine one.bind fun flow _ => ?_
    cases flow with
    | next => exact others
    | leave => exact .pure trivial

theorem follows_branches (company : Company printing stream member)
    (performs : Performs printing stream member inner told) {t : Template} (own : member t) :
    (all : List (Option Expression × List Statement)) →
      (∀ condition body, (condition, body) ∈ all → Binding member t body) →
      Follows printing stream member id (fun _ => True) (Statement.runBranches inner t id all)
        (Statement.accountBranches Template.realm told t all)
  | [], _ => by
    rw [Statement.runBranches, Statement.accountBranches]
    exact .pure trivial
  | (condition, body) :: rest, binding => by
    have one := follows_all company performs own body (binding condition body List.mem_cons_self)
    have others := follows_branches company performs own rest fun condition body member =>
      binding condition body (List.mem_cons_of_mem _ member)
    have chosen (holds : Bool) : Follows printing stream member id (fun _ => True)
        (if holds = true then Statement.runAll inner t id body else Statement.runBranches inner t id rest)
        (if holds = true then Statement.accountAll Template.realm told t body
          else Statement.accountBranches Template.realm told t rest) := by
      cases holds with
      | true => exact one
      | false => exact others
    rw [Statement.runBranches.eq_def, Statement.accountBranches.eq_def]
    cases condition with
    | some condition =>
      refine (follows_evaluate condition).bind fun v _ => ?_
      exact chosen v.isTrue
    | none => exact chosen true

end

end

/-- Templates that are rendered within a bound do what is told of them within that bound. -/
theorem performs_runWithin {printing : Printing} {stream : Bool} {member : Template → Prop}
    (company : Company printing stream member) (depth : Nat) :
    Performs printing stream member (Template.runWithin depth) (Template.realm.account depth) := by
  induction depth with
  | zero => exact fun t _ id s scope _ => rfl
  | succ depth ih =>
    intro t own id s scope shows
    obtain ⟨p, body⟩ := company.program t own
    have program : t.program = p := by rw [Template.program, body]
    have follows : Follows printing stream member id (fun _ => True)
        (Statement.runAll (Template.runWithin depth) t id p)
        (Statement.accountAll Template.realm (Template.realm.account depth) t p) :=
      follows_all company ih own p fun name has => company.macros t own name (program ▸ has)
    have start : Template.runWithin (depth + 1) t id s =
        (Statement.runAll (Template.runWithin depth) t id p >>= fun _ => Pure.pure ()) s := by
      rw [Template.runWithin, body]
    rw [start, Render.bind_apply, Realm.account, show Template.realm.program t = p from program]
    have ran := follows s ⟨scope, []⟩ shows
    cases told : Statement.accountAll Template.realm (Template.realm.account depth) t p ⟨scope, []⟩ with
    | none =>
      rw [told] at ran
      rw [show Statement.runAll (Template.runWithin depth) t id p s = none from ran]
      rfl
    | some done =>
      obtain ⟨result, τ⟩ := done
      rw [told] at ran
      obtain ⟨_, s', acted, shows', kept⟩ := ran
      rw [acted]
      refine ⟨s', ?_, kept, fun deeds eq => ?_⟩
      · cases result <;> rfl
      · cases result with
        | error e => cases eq
        | ok flow => rw [← Except.ok.inj eq, shows'.output]

end MarkupTemplates
