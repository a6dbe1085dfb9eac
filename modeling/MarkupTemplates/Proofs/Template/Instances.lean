import MarkupTemplates.Template.Compiler
import MarkupTemplates.Template.Construction
import MarkupTemplates.Proofs.ParsedTemplate.MacroOrigin

namespace MarkupTemplates

/-- The class is what the template is compiled into, and so it is with the macros, at any depth. -/
inductive TemplateClass.CompiledFrom : ParsedTemplate TemplateClass → TemplateClass → Prop
  | intro {template : ParsedTemplate TemplateClass} {c : TemplateClass} :
      ofParsed template = .ok c → Dictionary.Ordered template.macros →
      (∀ name found, (name, found) ∈ template.macros → CompiledFrom found.template found.compiled) →
      CompiledFrom template c

/-- The template that is reached by the names of macros of their own, from the outside in. -/
def Template.at? : Template → List Text → Option Template
  | t, [] => some t
  | t, name :: path => (Dictionary.get? t.macros name).bind fun found => found.at? path

/-- A template that was made with these arguments from the class of a parsed template. Nothing is said of its
macros. -/
structure Template.MadeFrom (args : TemplateArguments) (parsed : ParsedTemplate TemplateClass) (t : Template) :
    Prop where
  program : ∃ p, Program.ofChunks parsed.chunks = .ok p ∧ t.ofClass.body = .program p
  name : t.header.name = some parsed.resource.name
  className : t.header.className = parsed.className
  stream : t.header.stream = parsed.stream
  printing : Printing.ofSettings args.settings args.filter args.formatter = .ok t.printing
  imported : t.imported = args.imported

/-- The maker is the last one that is declared under the name. -/
def LastUnder (makers : List (Text × TemplateMaker)) (name : Text) (maker : TemplateMaker) : Prop :=
  ∃ before after, makers = before ++ (name, maker) :: after ∧ name ∉ after.map Prod.fst

theorem LastUnder.mem {makers : List (Text × TemplateMaker)} {name : Text} {maker : TemplateMaker}
    (last : LastUnder makers name maker) : (name, maker) ∈ makers := by
  obtain ⟨before, after, rfl, _⟩ := last
  exact List.mem_append_right before List.mem_cons_self

namespace TemplateClass

theorem ofParsed_ok {template : ParsedTemplate TemplateClass} {c : TemplateClass} (h : ofParsed template = .ok c) :
    ∃ p, Program.ofChunks template.chunks = .ok p ∧ c.body = .program p ∧
      c.header.name = some template.resource.name ∧ c.header.className = template.className ∧
      c.header.stream = template.stream ∧
      c.macros = template.macros.map fun (name, m) => (name, .ofClass m.compiled) := by
  obtain ⟨p, program, eq⟩ := ok_of_bind h
  obtain rfl := Except.ok.inj eq
  exact ⟨p, program, rfl, rfl, rfl, rfl, rfl⟩

theorem CompiledFrom.made {template : ParsedTemplate TemplateClass} {c : TemplateClass}
    (compiled : CompiledFrom template c) : ofParsed template = .ok c := by
  cases compiled with
  | intro made => exact made

theorem CompiledFrom.compiled_below {template : ParsedTemplate TemplateClass} {c : TemplateClass}
    (compiled : CompiledFrom template c) {name : Text} {found : Macro TemplateClass}
    (known : Dictionary.get? template.macros name = some found) : CompiledFrom found.template found.compiled := by
  cases compiled with
  | intro _ _ below => exact below name found (Dictionary.mem_of_get? known)

end TemplateClass

/-- A template that is parsed with its macros compiled on the way is compiled as a whole. -/
theorem Parser.compiledFrom {parser : Parser TemplateClass} (compiler : parser.compiler = Program.compiler)
    {stream : Bool} {depth : Nat} {resource : Resource} {events : List Event}
    {template : ParsedTemplate TemplateClass} {c : TemplateClass}
    (parsed : parser.parseWithin stream depth resource = (events, .ok template))
    (made : TemplateClass.ofParsed template = .ok c) : TemplateClass.CompiledFrom template c := by
  induction depth generalizing resource events template c with
  | zero => exact absurd (congrArg Prod.snd parsed) nofun
  | succ depth ih =>
    refine .intro made (Parser.ordered_macros parsed) fun name found member => ?_
    obtain ⟨_, _, _, _, _, _, below, compiled⟩ := Parser.comesFrom parsed name found member
    rw [show (parser.job stream depth resource).compiler = Program.compiler from compiler] at compiled
    exact ih below compiled

section

variable {args : TemplateArguments}

/-- Macros are all made, and under each name that is declared the last one is found. -/
theorem instantiateAll_ok {made result : Dictionary Template} {makers : List (Text × TemplateMaker)}
    (h : instantiateAll args made makers = .ok result) (name : Text) :
    (name ∉ makers.map Prod.fst ∧ result.get? name = made.get? name) ∨
      ∃ maker t, LastUnder makers name maker ∧ maker.make args = .ok t ∧ result.get? name = some t := by
  induction makers generalizing made with
  | nil =>
    rw [instantiateAll] at h
    exact .inl ⟨List.not_mem_nil, by rw [Except.ok.inj h]⟩
  | cons entry makers ih =>
    obtain ⟨key, maker⟩ := entry
    rw [instantiateAll] at h
    cases one : maker.make args with
    | error e =>
      rw [one] at h
      cases h
    | ok t =>
      rw [one] at h
      rcases ih h with ⟨outside, kept⟩ | ⟨maker', t', ⟨before, after, rfl, last⟩, own, found⟩
      · rw [Dictionary.get?_insert] at kept
        by_cases same : key = name
        · subst same
          rw [if_pos rfl] at kept
          exact .inr ⟨maker, t, ⟨[], makers, rfl, outside⟩, one, kept⟩
        · rw [if_neg same] at kept
          refine .inl ⟨?_, kept⟩
          rw [List.map_cons, List.mem_cons, not_or]
          exact ⟨fun eq => same eq.symm, outside⟩
      · exact .inr ⟨maker', t', ⟨(key, maker) :: before, after, rfl, last⟩, own, found⟩

theorem instantiateAll_isOk {made : Dictionary Template} {makers : List (Text × TemplateMaker)}
    (all : ∀ name maker, (name, maker) ∈ makers → ∃ t, maker.make args = .ok t) :
    ∃ result, instantiateAll args made makers = .ok result := by
  induction makers generalizing made with
  | nil => exact ⟨made, rfl⟩
  | cons entry makers ih =>
    obtain ⟨key, maker⟩ := entry
    obtain ⟨t, one⟩ := all key maker List.mem_cons_self
    obtain ⟨result, rest⟩ := ih (fun name maker member => all name maker (List.mem_cons_of_mem _ member))
    exact ⟨result, by rw [instantiateAll, one]; exact rest⟩

namespace TemplateClass

/-- Once it is settled how values are printed, all that is left to be made is the macros. -/
theorem instantiate_eq_map {p : Printing}
    (settled : Printing.ofSettings args.settings args.filter args.formatter = .ok p) (c : TemplateClass) :
    c.instantiate args = (instantiateAll args [] c.macros).map fun macros =>
      { ofClass := c, printing := p, functions := args.functions, imported := args.imported, macros } := by
  obtain ⟨header, body, makers⟩ := c
  rw [instantiate, settled]
  cases instantiateAll args [] makers <;> rfl

/-- What a template is made of that comes out of its class. -/
theorem instantiate_ok {c : TemplateClass} {t : Template} (h : c.instantiate args = .ok t) :
    t.ofClass = c ∧ Printing.ofSettings args.settings args.filter args.formatter = .ok t.printing ∧
      t.functions = args.functions ∧ t.imported = args.imported ∧
      instantiateAll args [] c.macros = .ok t.macros := by
  cases printing : Printing.ofSettings args.settings args.filter args.formatter with
  | error name =>
    obtain ⟨header, body, makers⟩ := c
    rw [instantiate, printing] at h
    cases h
  | ok p =>
    rw [instantiate_eq_map printing] at h
    cases made : instantiateAll args [] c.macros with
    | error e =>
      rw [made] at h
      cases h
    | ok macros =>
      rw [made] at h
      obtain rfl := Except.ok.inj h
      exact ⟨rfl, rfl, rfl, rfl, rfl⟩

/-- Only an unknown encoding keeps the templates of a compiled class from being made. -/
theorem CompiledFrom.instantiate_iff {template : ParsedTemplate TemplateClass} {c : TemplateClass}
    (compiled : CompiledFrom template c) :
    (∃ t, c.instantiate args = .ok t) ↔
      ∃ p, Printing.ofSettings args.settings args.filter args.formatter = .ok p := by
  constructor
  · rintro ⟨t, made⟩
    exact ⟨t.printing, (instantiate_ok made).2.1⟩
  · rintro ⟨p, printing⟩
    induction compiled with
    | @intro template c made _ _ ih =>
      obtain ⟨_, _, _, _, _, _, macros⟩ := ofParsed_ok made
      obtain ⟨result, all⟩ := @instantiateAll_isOk args [] c.macros fun name maker member => by
        rw [macros] at member
        obtain ⟨⟨name', found⟩, inside, eq⟩ := List.mem_map.mp member
        obtain ⟨rfl, rfl⟩ := Prod.mk.inj eq
        exact ih _ found inside
      rw [instantiate_eq_map printing, all]
      exact ⟨_, rfl⟩

/-- The macros of a template are made from the macros of what the template was parsed into. -/
theorem CompiledFrom.macros {template : ParsedTemplate TemplateClass} {c : TemplateClass} {t : Template}
    (compiled : CompiledFrom template c) (made : c.instantiate args = .ok t) (name : Text) :
    (Dictionary.get? template.macros name = none ∧ Dictionary.get? t.macros name = none) ∨
      ∃ found own, Dictionary.get? template.macros name = some found ∧ Dictionary.get? t.macros name = some own ∧
        found.compiled.instantiate args = .ok own := by
  cases compiled with
  | intro parsed ordered below =>
    obtain ⟨_, _, _, _, _, _, macros⟩ := ofParsed_ok parsed
    obtain ⟨rfl, _, _, _, all⟩ := instantiate_ok made
    have names : t.ofClass.macros.map Prod.fst = Dictionary.keys template.macros := by
      rw [macros, List.map_map]
      rfl
    rcases instantiateAll_ok all name with ⟨outside, none⟩ | ⟨maker, own, last, one, found⟩
    · rw [names] at outside
      exact .inl ⟨Dictionary.get?_eq_none_iff.mpr outside, none⟩
    · have member := last.mem
      rw [macros] at member
      obtain ⟨⟨name', found'⟩, inside, eq⟩ := List.mem_map.mp member
      obtain ⟨rfl, rfl⟩ := Prod.mk.inj eq
      exact .inr ⟨found', own, ordered.get?_of_mem inside, found, one⟩

/-- The templates below a template are those that were made from what is below the parsed one. -/
theorem CompiledFrom.instance_at {template : ParsedTemplate TemplateClass} {c : TemplateClass} {t : Template}
    (compiled : CompiledFrom template c) (made : c.instantiate args = .ok t) (path : List Text) :
    Option.Rel (Template.MadeFrom args) (template.at? path) (t.at? path) := by
  induction path generalizing template c t with
  | nil =>
    obtain ⟨p, program, body, name, className, stream, _⟩ := ofParsed_ok compiled.made
    obtain ⟨rfl, printing, _, imported, _⟩ := instantiate_ok made
    exact .some ⟨⟨p, program, body⟩, name, className, stream, printing, imported⟩
  | cons name path ih =>
    rw [ParsedTemplate.at?, Template.at?]
    rcases compiled.macros made name with ⟨none, none'⟩ | ⟨found, own, known, known', one⟩
    · rw [none, none']
      exact .none
    · rw [known, known']
      exact ih (compiled.compiled_below known) one

end TemplateClass

end

end MarkupTemplates
