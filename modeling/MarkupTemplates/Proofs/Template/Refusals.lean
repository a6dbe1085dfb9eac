import MarkupTemplates.Proofs.Template.Formatters
import MarkupTemplates.Proofs.Template.Instances

namespace MarkupTemplates

/-- A maker that is declared among others, or at any depth by a class among them. Its place has the position and the
name of each declaration on the way to it, from the outside in. -/
inductive DeclaredAt : List (Text × TemplateMaker) → List (Nat × Text) → TemplateMaker → Prop
  | own {makers : List (Text × TemplateMaker)} {i : Nat} {name : Text} {maker : TemplateMaker} :
      makers[i]? = some (name, maker) → DeclaredAt makers [(i, name)] maker
  | inside {makers : List (Text × TemplateMaker)} {i : Nat} {name : Text} {c : TemplateClass}
      {place : List (Nat × Text)} {maker : TemplateMaker} :
      makers[i]? = some (name, .ofClass c) → DeclaredAt c.macros place maker →
      DeclaredAt makers ((i, name) :: place) maker

/-- No constructor fails, at any depth. -/
def Unrefused (makers : List (Text × TemplateMaker)) : Prop :=
  ∀ place message, ¬ DeclaredAt makers place (.failing message)

/-- Where the first of the constructors that fail is declared, depth first and in order of declaration. -/
structure FirstRefusal (makers : List (Text × TemplateMaker)) (place : List (Nat × Text)) (message : Text) :
    Prop where
  refuses : DeclaredAt makers place (.failing message)
  first : ∀ other said, DeclaredAt makers other (.failing said) →
    ¬ List.Lex (· < ·) (other.map Prod.fst) (place.map Prod.fst)

/-- A cause by way of the macros that are named from the outside in. -/
def ConstructionError.along (path : List Text) (cause : ConstructionError) : ConstructionError :=
  path.foldr inMacro cause

/-- The configured encoding is not the name of any charset. -/
def Settings.UnknownEncoding (settings : Settings) (name : Text) : Prop :=
  Dictionary.get? settings "output.encoding" = some name ∧ name ≠ [] ∧ Charset.ofName? name = none

/-- A template of the class has all that it was constructed with, and macros under the names that the class declares. -/
structure Template.Equipped (args : TemplateArguments) (c : TemplateClass) (t : Template) : Prop where
  ofClass : t.ofClass = c
  settings : t.printing.settings = args.settings
  filter : t.printing.filter = args.filter
  formatter : t.printing.formatter = args.formatter
  functions : t.functions = args.functions
  imported : t.imported = args.imported
  ordered : Dictionary.Ordered t.macros
  names : ∀ name, name ∈ Dictionary.keys t.macros ↔ name ∈ c.macros.map Prod.fst

/-- What a maker makes: a class makes templates that have what they are constructed with, and under each name what the
last maker of that name makes. -/
inductive TemplateMaker.Makes (args : TemplateArguments) : TemplateMaker → Template → Prop
  | given (t : Template) : Makes args (.given t) t
  | ofClass {c : TemplateClass} {t : Template} : t.Equipped args c →
      (∀ name maker own, LastUnder c.macros name maker → Dictionary.get? t.macros name = some own →
        Makes args maker own) →
      Makes args (.ofClass c) t

/-- Classes are made of classes, down to makers that are no classes. -/
theorem makers_induction {motive : List (Text × TemplateMaker) → Prop} (nil : motive [])
    (ofClass : ∀ name c rest, motive c.macros → motive rest → motive ((name, .ofClass c) :: rest))
    (given : ∀ name t rest, motive rest → motive ((name, .given t) :: rest))
    (failing : ∀ name message rest, motive rest → motive ((name, .failing message) :: rest)) :
    ∀ makers, motive makers
  | [] => nil
  | (name, .ofClass ⟨header, body, makers⟩) :: rest =>
    ofClass name ⟨header, body, makers⟩ rest (makers_induction nil ofClass given failing makers)
      (makers_induction nil ofClass given failing rest)
  | (name, .given t) :: rest => given name t rest (makers_induction nil ofClass given failing rest)
  | (name, .failing message) :: rest => failing name message rest (makers_induction nil ofClass given failing rest)

section

variable {makers rest : List (Text × TemplateMaker)} {place : List (Nat × Text)} {name message : Text} {i : Nat}
  {maker found : TemplateMaker} {c : TemplateClass}

theorem LastUnder.unique {maker' : TemplateMaker} (last : LastUnder makers name maker)
    (last' : LastUnder makers name maker') : maker = maker' := by
  obtain ⟨before, after, rfl, outside⟩ := last
  obtain ⟨before', after', eq, outside'⟩ := last'
  have apart {key : Text} {maker : TemplateMaker} {first later : List (Text × TemplateMaker)}
      (outside : key ∉ (first ++ (key, maker) :: later).map Prod.fst) : False :=
    outside (List.mem_map.mpr ⟨(key, maker), List.mem_append_right first List.mem_cons_self, rfl⟩)
  rcases List.append_eq_append_iff.mp eq with ⟨middle, _, rest⟩ | ⟨middle, _, rest⟩
  · cases middle with
    | nil => exact (Prod.mk.inj (List.cons.inj rest).1).2
    | cons entry middle =>
      obtain ⟨_, rfl⟩ := List.cons.inj rest
      exact (apart outside).elim
  · cases middle with
    | nil => exact (Prod.mk.inj (List.cons.inj rest).1).2.symm
    | cons entry middle =>
      obtain ⟨_, rfl⟩ := List.cons.inj rest
      exact (apart outside').elim

theorem DeclaredAt.place_ne_nil (declared : DeclaredAt makers place found) : place ≠ [] := by
  cases declared with
  | own => exact List.cons_ne_nil _ _
  | inside => exact List.cons_ne_nil _ _

/-- What is declared among makers is declared by the first one, or among those behind it. -/
theorem declaredAt_cons : DeclaredAt ((name, maker) :: rest) place found ↔
    (place = [(0, name)] ∧ found = maker) ∨
    (∃ c within, maker = .ofClass c ∧ place = (0, name) :: within ∧ DeclaredAt c.macros within found) ∨
    ∃ i key within, place = (i + 1, key) :: within ∧ DeclaredAt rest ((i, key) :: within) found := by
  constructor
  · intro declared
    cases declared with
    | @own _ i key _ here =>
      cases i with
      | zero =>
        obtain ⟨rfl, rfl⟩ := Prod.mk.inj (Option.some.inj here)
        exact .inl ⟨rfl, rfl⟩
      | succ i => exact .inr (.inr ⟨i, key, [], rfl, .own here⟩)
    | @inside _ i key c within _ here below =>
      cases i with
      | zero =>
        obtain ⟨rfl, rfl⟩ := Prod.mk.inj (Option.some.inj here)
        exact .inr (.inl ⟨c, within, rfl, rfl, below⟩)
      | succ i => exact .inr (.inr ⟨i, key, within, rfl, .inside here below⟩)
  · rintro (⟨rfl, rfl⟩ | ⟨c, within, rfl, rfl, below⟩ | ⟨i, key, within, rfl, later⟩)
    · exact .own rfl
    · exact .inside rfl below
    · cases later with
      | own here => exact .own here
      | inside here below => exact .inside here below

theorem unrefused_nil : Unrefused [] := by
  intro place message declared
  cases declared with
  | own here => cases here
  | inside here => cases here

theorem unrefused_cons (first : Unrefused [(name, maker)]) (others : Unrefused rest) :
    Unrefused ((name, maker) :: rest) := by
  intro place message declared
  rcases declaredAt_cons.mp declared with own | below | ⟨_, _, _, _, later⟩
  · exact first _ _ (declaredAt_cons.mpr (.inl own))
  · exact first _ _ (declaredAt_cons.mpr (.inr (.inl below)))
  · exact others _ _ later

theorem unrefused_given (name : Text) (t : Template) : Unrefused [(name, .given t)] := by
  intro place message declared
  rcases declaredAt_cons.mp declared with ⟨_, other⟩ | ⟨_, _, no_class, _⟩ | ⟨_, _, _, _, later⟩
  · cases other
  · cases no_class
  · exact unrefused_nil _ _ later

theorem unrefused_ofClass (name : Text) (below : Unrefused c.macros) : Unrefused [(name, .ofClass c)] := by
  intro place message declared
  rcases declaredAt_cons.mp declared with ⟨_, other⟩ | ⟨_, _, same, _, within⟩ | ⟨_, _, _, _, later⟩
  · cases other
  · obtain rfl := TemplateMaker.ofClass.inj same
    exact below _ _ within
  · exact unrefused_nil _ _ later

namespace FirstRefusal

theorem here : FirstRefusal ((name, .failing message) :: rest) [(0, name)] message where
  refuses := .own rfl
  first other said declared := by
    rcases declaredAt_cons.mp declared with ⟨rfl, _⟩ | ⟨c, within, no_class, _⟩ | ⟨i, key, within, rfl, _⟩
    · rintro (_ | less | ⟨⟨⟩⟩)
      exact Nat.lt_irrefl 0 less
    · cases no_class
    · rintro (_ | less | _)
      exact Nat.not_lt_zero _ less

theorem inside (first : FirstRefusal c.macros place message) :
    FirstRefusal ((name, .ofClass c) :: rest) ((0, name) :: place) message where
  refuses := .inside rfl first.refuses
  first other said declared := by
    rcases declaredAt_cons.mp declared with ⟨_, no_class⟩ | ⟨c', within, same, rfl, below⟩ | ⟨i, key, within, rfl, _⟩
    · cases no_class
    · obtain rfl := TemplateMaker.ofClass.inj same
      rintro (_ | less | earlier)
      · exact Nat.lt_irrefl 0 less
      · exact first.first _ _ below earlier
    · rintro (_ | less | _)
      exact Nat.not_lt_zero _ less

/-- Where the maker in front refuses nothing, the first refusal behind it is the first one. -/
theorem behind (first : FirstRefusal rest ((i, name) :: place) message) {key : Text}
    (quiet : Unrefused [(key, maker)]) : FirstRefusal ((key, maker) :: rest) ((i + 1, name) :: place) message where
  refuses := declaredAt_cons.mpr (.inr (.inr ⟨i, name, place, rfl, first.refuses⟩))
  first other said declared := by
    rcases declaredAt_cons.mp declared with own | below | ⟨j, other, within, rfl, later⟩
    · exact (quiet _ _ (declaredAt_cons.mpr (.inl own))).elim
    · exact (quiet _ _ (declaredAt_cons.mpr (.inr (.inl below)))).elim
    · rintro (_ | less | earlier)
      · exact first.first _ _ later (.rel (Nat.lt_of_succ_lt_succ less))
      · exact first.first _ _ later (.cons earlier)

end FirstRefusal

end

section

variable {args : TemplateArguments} {printing : Printing} {makers rest : List (Text × TemplateMaker)}
  {made result : Dictionary Template} {c : TemplateClass} {t : Template}

/-- All macros are made, or what is made fails for the first refusal. -/
def Accounted (makers : List (Text × TemplateMaker))
    (outcome : Except ConstructionError (Dictionary Template)) : Prop :=
  (Unrefused makers ∧ ∃ result, outcome = .ok result) ∨
    ∃ place message, FirstRefusal makers place message ∧
      outcome = .error (.along (place.map Prod.snd) (.refused message))

theorem Accounted.cons {name : Text} {maker : TemplateMaker} (one : maker.make args = .ok t)
    (quiet : Unrefused [(name, maker)]) (behind : Accounted rest (instantiateAll args (made.insert name t) rest)) :
    Accounted ((name, maker) :: rest) (instantiateAll args made ((name, maker) :: rest)) := by
  rw [instantiateAll, one]
  rcases behind with ⟨others, all⟩ | ⟨place, message, first, failed⟩
  · exact .inl ⟨unrefused_cons quiet others, all⟩
  · obtain ⟨⟨i, key⟩, within, rfl⟩ := List.exists_cons_of_ne_nil first.refuses.place_ne_nil
    exact .inr ⟨_, message, first.behind quiet, failed⟩

/-- Once it is settled how values are printed, nothing but a constructor that fails keeps macros from being made. -/
theorem accounted (settled : Printing.ofSettings args.settings args.filter args.formatter = .ok printing)
    (makers : List (Text × TemplateMaker)) (made : Dictionary Template) :
    Accounted makers (instantiateAll args made makers) := by
  induction makers using makers_induction generalizing made with
  | nil => exact .inl ⟨unrefused_nil, made, by rw [instantiateAll]⟩
  | ofClass name c rest below behind =>
    have make : (TemplateMaker.ofClass c).make args = c.instantiate args := by rw [TemplateMaker.make]
    rw [TemplateClass.instantiate_eq_map settled] at make
    rcases below [] with ⟨quiet, macros, all⟩ | ⟨place, message, first, failed⟩
    · rw [all] at make
      exact .cons make (unrefused_ofClass name quiet) (behind _)
    · rw [failed] at make
      refine .inr ⟨_, message, first.inside, ?_⟩
      rw [instantiateAll, make]
      rfl
  | given name t rest behind => exact .cons (by rw [TemplateMaker.make]) (unrefused_given name t) (behind _)
  | failing name message rest _ =>
    refine .inr ⟨_, message, .here, ?_⟩
    rw [instantiateAll, TemplateMaker.make]
    rfl

theorem ordered_instantiateAll (ordered : made.Ordered) (h : instantiateAll args made makers = .ok result) :
    result.Ordered := by
  induction makers generalizing made with
  | nil =>
    rw [instantiateAll] at h
    exact Except.ok.inj h ▸ ordered
  | cons entry makers ih =>
    obtain ⟨name, maker⟩ := entry
    rw [instantiateAll] at h
    cases one : maker.make args with
    | error e =>
      rw [one] at h
      cases h
    | ok t =>
      rw [one] at h
      exact ih (ordered.insert name t) h

/-- A template has what it is constructed with. -/
theorem Template.equipped (h : c.instantiate args = .ok t) : t.Equipped args c := by
  obtain ⟨own, printing, functions, imported, all⟩ := TemplateClass.instantiate_ok h
  obtain ⟨settings, filter, formatter, _⟩ := Printing.ofSettings_ok printing
  refine ⟨own, settings, filter, formatter, functions, imported, ordered_instantiateAll .nil all, fun name => ?_⟩
  rw [Dictionary.mem_keys_iff]
  rcases instantiateAll_ok all name with ⟨outside, none⟩ | ⟨maker, made, last, _, found⟩
  · rw [none]
    exact ⟨nofun, fun declared => (outside declared).elim⟩
  · rw [found]
    exact ⟨fun _ => List.mem_map.mpr ⟨_, last.mem, rfl⟩, fun _ => rfl⟩

theorem TemplateMaker.makes_of_instantiate (h : c.instantiate args = .ok t)
    (below : ∀ name maker, (name, maker) ∈ c.macros → ∀ own, maker.make args = .ok own → maker.Makes args own) :
    (TemplateMaker.ofClass c).Makes args t := by
  refine .ofClass (Template.equipped h) fun name maker own last known => ?_
  obtain ⟨_, _, _, _, all⟩ := TemplateClass.instantiate_ok h
  rcases instantiateAll_ok all name with ⟨outside, _⟩ | ⟨maker', own', last', one, found⟩
  · exact absurd (List.mem_map.mpr ⟨_, last.mem, rfl⟩) outside
  · obtain rfl := last.unique last'
    obtain rfl := Option.some.inj (known.symm.trans found)
    exact below name maker last.mem own one

/-- What a maker gives is what it is said to make. -/
theorem TemplateMaker.makes_of_make (makers : List (Text × TemplateMaker)) (name : Text) (maker : TemplateMaker)
    (member : (name, maker) ∈ makers) (own : Template) (one : maker.make args = .ok own) :
    maker.Makes args own := by
  induction makers using makers_induction generalizing name maker own with
  | nil => exact absurd member List.not_mem_nil
  | ofClass key c rest below behind =>
    rcases List.mem_cons.mp member with eq | later
    · obtain ⟨rfl, rfl⟩ := Prod.mk.inj eq
      rw [TemplateMaker.make] at one
      exact makes_of_instantiate one below
    · exact behind name maker later own one
  | given key t rest behind =>
    rcases List.mem_cons.mp member with eq | later
    · obtain ⟨rfl, rfl⟩ := Prod.mk.inj eq
      rw [TemplateMaker.make] at one
      exact Except.ok.inj one ▸ .given t
    · exact behind name maker later own one
  | failing key message rest behind =>
    rcases List.mem_cons.mp member with eq | later
    · obtain ⟨rfl, rfl⟩ := Prod.mk.inj eq
      rw [TemplateMaker.make] at one
      cases one
    · exact behind name maker later own one

theorem Printing.ofSettings_error_iff {settings : Settings} {filter : Option (Text → Text)}
    {formatter : Option Formatter} {name : Text} :
    ofSettings settings filter formatter = .error name ↔ settings.UnknownEncoding name := by
  unfold ofSettings Settings.UnknownEncoding
  cases configured : Dictionary.get? settings "output.encoding" with
  | none => simp
  | some found =>
    by_cases empty : found = []
    · subst empty
      simp only [ne_eq, Option.filter_some, not_true_eq_false, decide_false, Bool.false_eq_true, if_false]
      constructor
      · nofun
      · rintro ⟨eq, some_name, _⟩
        exact absurd (Option.some.inj eq).symm some_name
    · simp only [ne_eq, Option.filter_some, empty, not_false_eq_true, decide_true, if_true]
      cases known : Charset.ofName? found with
      | none =>
        constructor
        · intro eq
          obtain rfl := Except.error.inj eq
          exact ⟨rfl, empty, known⟩
        · rintro ⟨eq, _⟩
          rw [Option.some.inj eq]
      | some charset =>
        constructor
        · nofun
        · rintro ⟨eq, _, unknown⟩
          rw [← Option.some.inj eq, known] at unknown
          cases unknown

end

namespace TemplateClass

/-- What comes of constructing a template from a class with its macros, theirs, and so on. An encoding that is not
known is refused as such, whatever is declared. Else a template is made, unless there are constructors that fail: then
it is the first of them, depth first and in order of declaration, that is reported, by way of the macros on the way
to it. A template that is made has what it was constructed with, and so have those of its macros that are made from
classes, at any depth; each of them has macros under the names that its class declares, and of two that are declared
under one name the later one. -/
theorem construction_follows_declarations (c : TemplateClass) (args : TemplateArguments) :
    (∀ name, args.settings.UnknownEncoding name → c.instantiate args = .error (.unsupportedEncoding name)) ∧
    ((∀ name, ¬ args.settings.UnknownEncoding name) →
      ((∃ t, c.instantiate args = .ok t) ↔ ¬ ∃ place message, DeclaredAt c.macros place (.failing message)) ∧
      ((∃ place message, DeclaredAt c.macros place (.failing message)) →
        ∃ place message, FirstRefusal c.macros place message ∧
          c.instantiate args = .error (.along (place.map Prod.snd) (.refused message)))) ∧
    ∀ t, c.instantiate args = .ok t → (TemplateMaker.ofClass c).Makes args t := by
  refine ⟨fun name unknown => ?_, fun known => ?_, fun t made => ?_⟩
  · obtain ⟨header, body, makers⟩ := c
    rw [instantiate, Printing.ofSettings_error_iff.mpr unknown]
  · cases settled : Printing.ofSettings args.settings args.filter args.formatter with
    | error name => exact absurd (Printing.ofSettings_error_iff.mp settled) (known name)
    | ok printing =>
      rw [instantiate_eq_map settled]
      rcases accounted settled c.macros [] with ⟨quiet, macros, all⟩ | ⟨place, message, first, failed⟩
      · have none : ¬ ∃ place message, DeclaredAt c.macros place (.failing message) := by
          rintro ⟨place, message, declared⟩
          exact quiet place message declared
        rw [all]
        exact ⟨⟨fun _ => none, fun _ => ⟨_, rfl⟩⟩, fun declared => absurd declared none⟩
      · have declared : ∃ place message, DeclaredAt c.macros place (.failing message) :=
          ⟨place, message, first.refuses⟩
        rw [failed]
        refine ⟨⟨fun made => ?_, fun none => absurd declared none⟩, fun _ => ⟨place, message, first, rfl⟩⟩
        obtain ⟨t, made⟩ := made
        cases made
  · exact TemplateMaker.makes_of_instantiate made fun name maker member own one =>
      TemplateMaker.makes_of_make c.macros name maker member own one

/-- A macro in a macro fails before one that is declared later, under the same name as the macro around it. Two rows
are declared in a class, and the later one is made. -/
theorem construction_follows_declarations_of_lists :
    let row (className : Text) : TemplateClass := ⟨{ className }, .script [], []⟩
    let list : TemplateClass :=
      ⟨{ className := "List" }, .script [], [("row", .ofClass (row "A")), ("row", .ofClass (row "B"))]⟩
    let broken : TemplateClass :=
      ⟨{ className := "Broken" }, .script [], [("row", .ofClass (row "A")), ("cell", .failing "early")]⟩
    let page : TemplateClass :=
      ⟨{ className := "Page" }, .script [],
        [("list", .ofClass list), ("side", .ofClass broken), ("side", .failing "late")]⟩
    let args : TemplateArguments := { functions := ["f"] }
    let foreign : TemplateArguments := { settings := [("output.encoding", "none")] }
    (foreign.settings.UnknownEncoding "none" ∧ page.instantiate foreign = .error (.unsupportedEncoding "none")) ∧
    (∀ name, ¬ args.settings.UnknownEncoding name) ∧
    (DeclaredAt page.macros [(1, "side"), (1, "cell")] (.failing "early") ∧
      ∃ place message, FirstRefusal page.macros place message ∧
        page.instantiate args = .error (.along (place.map Prod.snd) (.refused message))) ∧
    ∃ t, list.instantiate args = .ok t ∧ (TemplateMaker.ofClass list).Makes args t ∧
      ¬ ∃ place message, DeclaredAt list.macros place (.failing message) := by
  intro row list broken page args foreign
  have unknown : foreign.settings.UnknownEncoding "none" := ⟨rfl, by decide, by decide +kernel⟩
  have known : ∀ name, ¬ args.settings.UnknownEncoding name := fun name unknown => absurd unknown.1 nofun
  have early : DeclaredAt page.macros [(1, "side"), (1, "cell")] (.failing "early") := .inside rfl (.own rfl)
  obtain ⟨refuses, _, _⟩ := page.construction_follows_declarations foreign
  obtain ⟨_, fails, _⟩ := page.construction_follows_declarations args
  obtain ⟨_, succeeds, makes⟩ := list.construction_follows_declarations args
  have made : ∃ t, list.instantiate args = .ok t := ⟨_, rfl⟩
  obtain ⟨t, one⟩ := id made
  exact ⟨⟨unknown, refuses _ unknown⟩, known, ⟨early, (fails known).2 ⟨_, _, early⟩⟩,
    t, one, makes t one, (succeeds known).1.mp made⟩

end TemplateClass

end MarkupTemplates
