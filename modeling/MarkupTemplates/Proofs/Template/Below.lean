import MarkupTemplates.Proofs.Program.Codes
import MarkupTemplates.Proofs.Template.Instances

namespace MarkupTemplates

theorem ParsedTemplate.at?_append {Compiled : Type} (t : ParsedTemplate Compiled) (path more : List Text) :
    t.at? (path ++ more) = (t.at? path).bind (·.at? more) := by
  induction path generalizing t with
  | nil => rfl
  | cons name path ih =>
    rw [List.cons_append, at?, at?, Option.bind_assoc]
    exact congrArg _ (funext fun found => ih found.template)

theorem Template.at?_append (t : Template) (path more : List Text) :
    t.at? (path ++ more) = (t.at? path).bind (·.at? more) := by
  induction path generalizing t with
  | nil => rfl
  | cons name path ih =>
    rw [List.cons_append, at?, at?, Option.bind_assoc]
    exact congrArg _ (funext fun found => ih found)

theorem Template.at?_concat {t a : Template} {path : List Text} (reached : t.at? path = some a) (name : Text) :
    t.at? (path ++ [name]) = Dictionary.get? a.macros name := by
  rw [at?_append, reached, Option.bind_some, at?]
  cases Dictionary.get? a.macros name <;> rfl

theorem ParsedTemplate.at?_concat {Compiled : Type} {t a : ParsedTemplate Compiled} {path : List Text}
    (reached : t.at? path = some a) (name : Text) :
    t.at? (path ++ [name]) = (Dictionary.get? a.macros name).map (·.template) := by
  rw [at?_append, reached, Option.bind_some, at?]
  cases Dictionary.get? a.macros name <;> rfl

theorem pathName_eq (template : Text) (path : List Text) :
    pathName template path = template ++ path.flatMap fun name => '#' :: name := by
  induction path generalizing template with
  | nil => exact (List.append_nil template).symm
  | cons name path ih =>
    rw [List.flatMap_cons, pathName, List.foldl_cons]
    refine (ih (macroPath template name)).trans ?_
    rw [macroPath, List.append_assoc]

/-- No two sources below a template are called alike. -/
theorem pathName_injective {template : Text} {p q : List Text} (one : ∀ name ∈ p, name.isIdentifier = true)
    (other : ∀ name ∈ q, name.isIdentifier = true) (same : pathName template p = pathName template q) : p = q := by
  rw [pathName_eq, pathName_eq] at same
  replace same := List.append_cancel_left same
  -- identifiers hold no number sign, so the first of them ends where the next one begins
  have first (name : Text) (path : List Text) (identifier : name.isIdentifier = true) :
      (name ++ path.flatMap fun name => '#' :: name).takeWhile (· ≠ '#') = name := by
    have apart : ∀ c ∈ name, decide (c ≠ '#') = true := fun c inside =>
      decide_eq_true fun eq => Text.not_mem_of_isIdentifier identifier (by decide) (eq ▸ inside)
    rw [List.takeWhile_append_of_pos apart]
    cases path <;> simp
  induction p generalizing q with
  | nil =>
    cases q with
    | nil => rfl
    | cons name q => cases same
  | cons name p ih =>
    cases q with
    | nil => cases same
    | cons name' q =>
      rw [List.flatMap_cons, List.flatMap_cons, List.cons_append, List.cons_append] at same
      have rest := (List.cons.inj same).2
      obtain rfl : name = name' := by
        rw [← first name p (one name List.mem_cons_self), rest, first name' q (other name' List.mem_cons_self)]
      rw [ih (fun next member => one next (List.mem_cons_of_mem _ member))
        (fun next member => other next (List.mem_cons_of_mem _ member)) (List.append_cancel_left rest)]

theorem ok_of_toOption {ε α : Type} {x : Except ε α} {a : α} (h : x.toOption = some a) : x = .ok a := by
  cases x with
  | error e => cases h
  | ok b => exact congrArg _ (Option.some.inj h)

/-- The template was made from what a source was parsed into, with all its macros. -/
structure Template.StemsFrom (parser : Parser TemplateClass) (args : TemplateArguments)
    (parsed : ParsedTemplate TemplateClass) (t : Template) : Prop where
  source : ∃ depth events, parser.parseWithin parsed.stream depth parsed.resource = (events, .ok parsed)
  made : ∃ c, TemplateClass.CompiledFrom parsed c ∧ c.instantiate args = .ok t

theorem Parser.compile_ok {parser : Parser TemplateClass} {stream : Bool} {resource : Resource} {events : List Event}
    {template : ParsedTemplate TemplateClass} {c : TemplateClass}
    (compiled : parser.compile stream resource = (events, .ok (template, c))) :
    parser.parse stream resource = (events, .ok template) ∧ parser.compiler.compile template = .ok c := by
  unfold compile at compiled
  split at compiled
  · cases compiled
  · next parsed =>
    split at compiled
    · next made =>
      obtain ⟨rfl, eq⟩ := Prod.mk.inj compiled
      obtain ⟨rfl, rfl⟩ := Prod.mk.inj (Except.ok.inj eq)
      exact ⟨parsed, made⟩
    · cases compiled

/-- A template keeps the source that it was parsed from, and whether it is a stream. -/
theorem Parser.parsed_from {Compiled : Type} {parser : Parser Compiled} {stream : Bool} {depth : Nat}
    {resource : Resource} {events : List Event} {template : ParsedTemplate Compiled}
    (parsed : parser.parseWithin stream depth resource = (events, .ok template)) :
    template.resource = resource ∧ template.stream = stream := by
  obtain ⟨_, w, _, _, rfl⟩ := parseWithin_ok parsed
  exact ⟨rfl, rfl⟩

namespace Template.StemsFrom

variable {parser : Parser TemplateClass} {args : TemplateArguments} {parsed : ParsedTemplate TemplateClass}
  {t a b : Template}

theorem of_parsed (compiler : parser.compiler = Program.compiler) {stream : Bool} {depth : Nat} {resource : Resource}
    {events : List Event} {c : TemplateClass}
    (ok : parser.parseWithin stream depth resource = (events, .ok parsed))
    (compiled : parser.compiler.compile parsed = .ok c) (made : c.instantiate args = .ok t) :
    t.StemsFrom parser args parsed := by
  rw [compiler] at compiled
  refine ⟨⟨depth, events, ?_⟩, c, Parser.compiledFrom compiler ok compiled, made⟩
  obtain ⟨rfl, rfl⟩ := Parser.parsed_from ok
  exact ok

theorem of_compile (compiler : parser.compiler = Program.compiler) {stream : Bool} {resource : Resource}
    {events : List Event} {c : TemplateClass} (ok : parser.compile stream resource = (events, .ok (parsed, c)))
    (made : c.instantiate args = .ok t) : t.StemsFrom parser args parsed := by
  obtain ⟨parse, compiled⟩ := Parser.compile_ok ok
  exact of_parsed compiler parse compiled made

/-- A macro of the template stems from a macro of the source. -/
theorem below (stems : t.StemsFrom parser args parsed) (compiler : parser.compiler = Program.compiler) {name : Text}
    (known : Dictionary.get? t.macros name = some a) :
    ∃ found, Dictionary.get? parsed.macros name = some found ∧ a.StemsFrom parser args found.template := by
  obtain ⟨⟨depth, events, ok⟩, c, compiled, made⟩ := stems
  rcases compiled.macros made name with ⟨_, none⟩ | ⟨found, own, among, among', one⟩
  · cases known.symm.trans none
  · obtain rfl := Option.some.inj (known.symm.trans among')
    obtain ⟨below, w, rfl, _, _⟩ := Parser.parseWithin_ok ok
    obtain ⟨_, body, _, _, _, _, inner, fits⟩ := Parser.comesFrom ok name found (Dictionary.mem_of_get? among)
    exact ⟨found, among, of_parsed compiler inner fits one⟩

/-- What is reached in the template was made from what is reached in the parsed one, and is called after its path. -/
theorem made_at (stems : t.StemsFrom parser args parsed) {path : List Text} (reached : t.at? path = some a) :
    ∃ u, parsed.at? path = some u ∧ a.MadeFrom args u ∧ u.stream = parsed.stream ∧
      u.resource.name = pathName parsed.resource.name path ∧ ∀ name ∈ path, name.isIdentifier = true := by
  obtain ⟨⟨depth, events, ok⟩, c, compiled, made⟩ := stems
  have both := compiled.instance_at made path
  rw [reached] at both
  generalize eq : parsed.at? path = found at both
  cases both with
  | @some u _ made =>
    obtain ⟨_, _, below, named, _, identifiers⟩ :=
      @Parser.parsed_at _ parser _ (fun _ => True) (fun _ _ _ _ _ => trivial) _ _ _ _ u path ok trivial eq
    exact ⟨u, rfl, made, (Parser.parsed_from below).2, named, identifiers⟩

/-- Templates in one are told apart by where they are. -/
theorem same_iff (stems : t.StemsFrom parser args parsed) {p q : List Text} (one : t.at? p = some a)
    (other : t.at? q = some b) : a.same b = true ↔ p = q := by
  constructor
  · intro same
    obtain ⟨u, _, made, _, named, identifiers⟩ := stems.made_at one
    obtain ⟨v, _, made', _, named', identifiers'⟩ := stems.made_at other
    have names : a.header.name = b.header.name := congrArg TemplateIdentity.name (of_decide_eq_true same)
    rw [made.name, made'.name, named, named'] at names
    exact pathName_injective identifiers identifiers' (Option.some.inj names)
  · rintro rfl
    obtain rfl := Option.some.inj (one.symm.trans other)
    exact decide_eq_true rfl

/-- The macros of a template are called as those of the source are. -/
theorem isSome_macros (stems : t.StemsFrom parser args parsed) {path : List Text} {u : ParsedTemplate TemplateClass}
    (reached : t.at? path = some a) (found : parsed.at? path = some u) (name : Text) :
    (Dictionary.get? a.macros name).isSome = (Dictionary.get? u.macros name).isSome := by
  obtain ⟨_, c, compiled, made⟩ := stems
  have both := compiled.instance_at made (path ++ [name])
  rw [at?_concat reached, ParsedTemplate.at?_concat found] at both
  generalize Dictionary.get? a.macros name = one at both
  generalize Dictionary.get? u.macros name = other at both
  cases other with
  | none =>
    cases both
    rfl
  | some m =>
    cases both
    rfl

end Template.StemsFrom

end MarkupTemplates
