import MarkupTemplates.Proofs.ParsedTemplate.Alongside
import MarkupTemplates.Proofs.Program.OwnMacros
import MarkupTemplates.Proofs.Rendering.Likeness
import MarkupTemplates.Proofs.Rendering.Results
import MarkupTemplates.Proofs.Template.Below

namespace MarkupTemplates

/-- The template itself, or one that is a macro of it, at any depth. -/
def Template.Holds (t a : Template) : Prop := ∃ path, t.at? path = some a

/-- Every macro that a program in the template binds is one of its own. -/
def Template.BindsOwn (t : Template) : Prop :=
  ∀ a, t.Holds a → ∀ name, a.program.Binds name → (Dictionary.get? a.macros name).isSome = true

/-- No program in the template binds a macro from outside. Binding one that is nowhere is not ruled out. -/
def Template.SelfContained (t : Template) : Prop :=
  ∀ a, t.Holds a → ∀ name, a.program.Binds name →
    (Dictionary.get? a.macros name).isSome = true ∨ Dictionary.get? a.imported name = none

theorem Template.BindsOwn.selfContained {t : Template} (own : t.BindsOwn) : t.SelfContained :=
  fun a held name binds => .inl (own a held name binds)

/-- The template itself, or one that comes to be bound where it is rendered. -/
inductive Template.Reaches (t : Template) : Template → Prop
  | self : Reaches t t
  | bound {a b : Template} {name : Text} :
      Reaches t a → a.program.Binds name → a.macro? name = some b → Reaches t b

/-- No script has a part in rendering the template. -/
def Template.OnlyPrograms (t : Template) : Prop := ∀ a, t.Reaches a → ∃ p, a.ofClass.body = .program p

/-- Some program in the template has the name in it. -/
def Template.Mentions (t : Template) (name : Text) : Prop :=
  ∃ a, t.Holds a ∧ ∃ statement, a.program.Has statement ∧ statement.Mentions name

/-- The templates are at the same place of two others. -/
def Template.AtOnePlace (t t' a b : Template) : Prop := ∃ path, t.at? path = some a ∧ t'.at? path = some b

/-- No parameter is a template. -/
def Parameters.TemplateFree (parameters : Parameters) : Prop :=
  ∀ name v, (name, v) ∈ parameters → ∀ t, v ≠ .template t

namespace Parameters

variable {parameters : Parameters}

theorem TemplateFree.scope_ne (free : parameters.TemplateFree) (name : Text) (t : Template) :
    parameters.scope name ≠ .template t := by
  intro eq
  rw [scope] at eq
  cases known : parameters.get? name with
  | none =>
    rw [known] at eq
    cases eq
  | some v =>
    rw [known, Option.getD_some] at eq
    exact free name v (Dictionary.mem_of_get? known) t eq

theorem TemplateFree.within (free : parameters.TemplateFree) (member : Template → Prop) (name : Text) :
    (parameters.scope name).Within member := fun t eq => absurd eq (free.scope_ne name t)

theorem TemplateFree.alike (free : parameters.TemplateFree) (rel : Template → Template → Prop) (name : Text) :
    (parameters.scope name).Alike rel (parameters.scope name) := by
  obtain ⟨w, eq⟩ := Value.exists_plain (free.scope_ne name)
  rw [eq]
  exact .plain w

end Parameters

/-- Two templates have the same code, and so have the macros at all depths. -/
def ParsedTemplate.SameCode {Compiled : Type} (one other : ParsedTemplate Compiled) : Prop :=
  ∀ path, Option.Rel (fun a b => a.code = b.code) (one.at? path) (other.at? path)

theorem ParsedTemplate.Alike.sameCode {Compiled : Type} {one other : ParsedTemplate Compiled}
    (alike : one.Alike other) : one.SameCode other := by
  intro path
  have same := alike path
  generalize one.at? path = a at same
  generalize other.at? path = b at same
  cases same with
  | none => exact .none
  | some same => exact .some same.2.1

theorem ParsedTemplate.SameCode.refl {Compiled : Type} (u : ParsedTemplate Compiled) : u.SameCode u := by
  intro path
  cases u.at? path with
  | none => exact .none
  | some v => exact .some rfl

namespace Template.StemsFrom

variable {parser parser' : Parser TemplateClass} {args args' : TemplateArguments}
  {u u' : ParsedTemplate TemplateClass} {t t' : Template}

theorem program_at (stems : t.StemsFrom parser args u) {path : List Text} {a : Template}
    (reached : t.at? path = some a) :
    ∃ v, u.at? path = some v ∧ Program.ofChunks v.chunks = .ok a.program ∧ a.ofClass.body = .program a.program := by
  obtain ⟨v, found, made, _⟩ := stems.made_at reached
  obtain ⟨p, program, body⟩ := made.program
  have own : a.program = p := by rw [Template.program, body]
  exact ⟨v, found, by rw [own]; exact program, by rw [own]; exact body⟩

/-- The templates in one that binds no macro from outside include no others. -/
theorem company (stems : t.StemsFrom parser args u) (selfContained : t.SelfContained) :
    Company t.printing u.stream t.Holds where
  program a held := by
    obtain ⟨path, reached⟩ := held
    obtain ⟨_, _, _, body⟩ := stems.program_at reached
    exact ⟨_, body⟩
  printing a held := by
    obtain ⟨path, reached⟩ := held
    obtain ⟨_, _, made, _⟩ := stems.made_at reached
    obtain ⟨_, _, here, _⟩ := @made_at _ _ _ _ _ stems [] rfl
    exact Except.ok.inj (made.printing.symm.trans here.printing)
  stream a held := by
    obtain ⟨path, reached⟩ := held
    obtain ⟨_, _, made, stream, _⟩ := stems.made_at reached
    exact made.stream.trans stream
  macros a held name binds found known := by
    obtain ⟨path, reached⟩ := id held
    refine ⟨path ++ [name], ?_⟩
    rw [at?_concat reached]
    rw [macro?] at known
    rcases selfContained a held name binds with own | outside
    · obtain ⟨b, own⟩ := Option.isSome_iff_exists.mp own
      rw [own, Option.some_or] at known
      exact own.trans known
    · rw [outside, Option.or_none] at known
      exact known

/-- Templates at one place have the same macros from outside if the same is imported. -/
theorem imported_alike (one : t.StemsFrom parser args u) (other : t'.StemsFrom parser' args' u')
    (imports : args.imported = args'.imported) {a b : Template} (both : t.AtOnePlace t' a b) :
    a.imported = b.imported := by
  obtain ⟨path, reached, reached'⟩ := both
  obtain ⟨_, _, made, _⟩ := one.made_at reached
  obtain ⟨_, _, made', _⟩ := other.made_at reached'
  rw [made.imported, made'.imported, imports]

section

variable (one : t.StemsFrom parser args u) (other : t'.StemsFrom parser' args' u') (codes : u.SameCode u')

include one other codes

/-- The templates that stem from sources of the same code have the same places in them. -/
theorem exists_at_place {b : Template} (held : t'.Holds b) : ∃ a, t.AtOnePlace t' a b := by
  obtain ⟨path, reached'⟩ := held
  obtain ⟨v', found', _⟩ := other.made_at reached'
  obtain ⟨_, c, compiled, made⟩ := one
  have same := codes path
  have both := compiled.instance_at made path
  rw [found'] at same
  generalize u.at? path = v at same both
  cases same with
  | some same =>
    generalize eq : t.at? path = a at both
    cases both with
    | some => exact ⟨_, path, eq, reached'⟩

theorem program_alike {a b : Template} (both : t.AtOnePlace t' a b) : a.program = b.program := by
  obtain ⟨path, reached, reached'⟩ := both
  obtain ⟨v, found, program, _⟩ := one.program_at reached
  obtain ⟨v', found', program', _⟩ := other.program_at reached'
  have same := codes path
  rw [found, found'] at same
  cases same with
  | some same =>
    rw [ParsedTemplate.chunks, same] at program
    exact Except.ok.inj (program.symm.trans program')

theorem macros_alike {a b : Template} (both : t.AtOnePlace t' a b) (name : Text) :
    (Dictionary.get? a.macros name).isSome = (Dictionary.get? b.macros name).isSome := by
  obtain ⟨path, reached, reached'⟩ := both
  obtain ⟨v, found, _⟩ := one.made_at reached
  obtain ⟨v', found', _⟩ := other.made_at reached'
  have below := codes (path ++ [name])
  rw [ParsedTemplate.at?_concat found, ParsedTemplate.at?_concat found'] at below
  rw [one.isSome_macros reached found, other.isSome_macros reached' found']
  generalize Dictionary.get? v.macros name = m at below
  generalize Dictionary.get? v'.macros name = m' at below
  cases m <;> cases m' <;> cases below <;> rfl

/-- Whether macros from outside are bound depends on the source and on what is imported alone. -/
theorem selfContained_alike (imports : args.imported = args'.imported) (selfContained : t.SelfContained) :
    t'.SelfContained := by
  intro b held name binds
  obtain ⟨a, both⟩ := one.exists_at_place other codes held
  rw [← one.macros_alike other codes both, ← one.imported_alike other imports both]
  rw [← one.program_alike other codes both] at binds
  obtain ⟨path, reached, _⟩ := both
  exact selfContained a ⟨path, reached⟩ name binds

/-- Templates that stem from sources of the same code are rendered alike, if none of them binds a macro from outside. -/
theorem kinship (selfContained : t.SelfContained) (selfContained' : t'.SelfContained) {hidden : Text → Prop}
    (visible : ∀ name, hidden name → ¬ t.Mentions name) : Kinship realm realm (t.AtOnePlace t') hidden where
  program a b both := one.program_alike other codes both
  same a b a' b' both both' := by
    obtain ⟨path, reached, reached'⟩ := both
    obtain ⟨path', again, again'⟩ := both'
    exact Bool.eq_iff_iff.mpr ((one.same_iff reached again).trans (other.same_iff reached' again').symm)
  visible a b both statement has name mentions concealed := by
    obtain ⟨path, reached, _⟩ := both
    exact visible name concealed ⟨a, ⟨path, reached⟩, statement, has, mentions⟩
  macros a b both name binds := by
    have names := one.macros_alike other codes both name
    have program := one.program_alike other codes both
    obtain ⟨path, reached, reached'⟩ := both
    show Option.Rel _ (a.macro? name) (b.macro? name)
    rw [macro?, macro?]
    cases own : Dictionary.get? a.macros name with
    | some c =>
      rw [own] at names
      obtain ⟨c', own'⟩ := Option.isSome_iff_exists.mp names.symm
      rw [own', Option.some_or, Option.some_or]
      exact .some ⟨path ++ [name], by rw [at?_concat reached, own], by rw [at?_concat reached', own']⟩
    | none =>
      rw [own] at names
      have own' := Option.isNone_iff_eq_none.mp (Option.isSome_eq_false_iff.mp names.symm)
      have outside : Dictionary.get? a.imported name = none :=
        (selfContained a ⟨path, reached⟩ name binds).resolve_left (by rw [own]; exact Bool.false_ne_true)
      have outside' : Dictionary.get? b.imported name = none :=
        (selfContained' b ⟨path, reached'⟩ name (program ▸ binds)).resolve_left (by rw [own']; exact Bool.false_ne_true)
      rw [own', Option.none_or, Option.none_or, outside, outside']
      exact .none

end

/-- A template that binds macros of its own does not lack any. -/
theorem not_lacking (own : t.BindsOwn) {e f : UnknownMacro Template}
    (lacking : Lacking realm (t.AtOnePlace t') e f) : False := by
  obtain ⟨⟨path, reached, _⟩, _, binds, none⟩ := lacking
  have known := own e.template ⟨path, reached⟩ e.name binds
  obtain ⟨found, known⟩ := Option.isSome_iff_exists.mp known
  rw [show realm.macro? e.template e.name = e.template.macro? e.name from rfl, macro?, known, Option.some_or] at none
  cases none

/-- Programs of unmarked sources bind macros of their own. -/
theorem bindsOwn (stems : t.StemsFrom parser args u) (demo : parser.dialect = Program.dialect)
    (var : (parser.names.name .var).Plain) (word : IsAttributeWord (parser.names.name .var))
    (unmarked : u.resource.source.Unmarked) : t.BindsOwn := by
  rintro a ⟨path, reached⟩ name binds
  obtain ⟨v, found, program, _⟩ := stems.program_at reached
  obtain ⟨depth, events, ok⟩ := stems.source
  obtain ⟨below, events', parsed, _, plain, _⟩ := Parser.parsed_at
    (fun source head body held unmarked => held.unmarked var word unmarked) ok unmarked found
  rw [stems.isSome_macros reached found]
  exact Parser.binds_own demo plain parsed program binds

/-- Nothing comes to be bound but templates of the source and, where a program binds a macro from outside, what comes to
be bound there. -/
theorem reaches_cases (stems : t.StemsFrom parser args u) {a : Template} (reached : t.Reaches a) :
    t.Holds a ∨ ∃ c name b, t.Holds c ∧ c.program.Binds name ∧ Dictionary.get? c.macros name = none ∧
      Dictionary.get? args.imported name = some b ∧ b.Reaches a := by
  induction reached with
  | self => exact .inl ⟨[], rfl⟩
  | @bound a b name _ binds found ih =>
    rcases ih with ⟨path, reached⟩ | ⟨c, outer, d, held, outside, none, imported, reached⟩
    · obtain ⟨_, _, made, _⟩ := stems.made_at reached
      rw [macro?] at found
      cases own : Dictionary.get? a.macros name with
      | some c =>
        rw [own, Option.some_or] at found
        exact .inl ⟨path ++ [name], by rw [at?_concat reached, own, found]⟩
      | none =>
        rw [own, Option.none_or, made.imported] at found
        exact .inr ⟨a, name, b, ⟨path, reached⟩, binds, own, found, .self⟩
    -- once a template from outside is reached, none of the source is reached from there any more
    · exact .inr ⟨c, outer, d, held, outside, none, imported, .bound reached binds found⟩

/-- No script is reached if only templates with programs are imported, or if the source is unmarked. -/
theorem onlyPrograms (stems : t.StemsFrom parser args u) (demo : parser.dialect = Program.dialect)
    (var : (parser.names.name .var).Plain) (word : IsAttributeWord (parser.names.name .var))
    (condition : u.resource.source.Unmarked ∨
      ∀ name b, Dictionary.get? args.imported name = some b → b.OnlyPrograms) : t.OnlyPrograms := by
  intro a reached
  rcases stems.reaches_cases reached with ⟨path, reached⟩ | ⟨c, name, b, held, binds, none, imported, reached⟩
  · obtain ⟨_, _, _, body⟩ := stems.program_at reached
    exact ⟨_, body⟩
  · rcases condition with unmarked | programs
    · have own := stems.bindsOwn demo var word unmarked c held name binds
      rw [none] at own
      cases own
    · exact programs name b imported a reached

variable {parameters : Option Parameters}

/-- The same is told of templates that stem from sources of the same code. -/
theorem told_alike (one : t.StemsFrom parser args u) (other : t'.StemsFrom parser' args' u') (codes : u.SameCode u')
    (selfContained : t.SelfContained) (selfContained' : t'.SelfContained)
    (free : (parameters.getD []).TemplateFree) (depth : Nat) :
    Option.Rel (Matched (Lacking realm (t.AtOnePlace t')) Eq) (t.told depth parameters)
      (t'.told depth parameters) := by
  have kin : Kinship realm realm (t.AtOnePlace t') fun _ => False :=
    one.kinship other codes selfContained selfContained' fun _ no => no.elim
  exact kin.included depth t t' ⟨[], rfl, rfl⟩ _ _ fun name _ => free.alike _ name

/-- A rendering that comes to an end comes to a good one, if only macros of the template are bound. -/
theorem told_ok (stems : t.StemsFrom parser args u) (own : t.BindsOwn) (free : (parameters.getD []).TemplateFree)
    (depth : Nat) : t.told depth parameters = none ∨ ∃ deeds, t.told depth parameters = some (.ok deeds) := by
  have alike := stems.told_alike stems (.refl u) own.selfContained own.selfContained free depth
  generalize t.told depth parameters = told at alike
  cases alike with
  | none => exact .inl rfl
  | some matched =>
    cases matched with
    | ok same => exact .inr ⟨_, rfl⟩
    | error lacking => exact (not_lacking own lacking).elim

end Template.StemsFrom

end MarkupTemplates
