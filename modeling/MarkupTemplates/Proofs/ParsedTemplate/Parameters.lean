import MarkupTemplates.Proofs.ParsedTemplate.Abstraction
import MarkupTemplates.Proofs.ParsedTemplate.Arising
import MarkupTemplates.Proofs.ParsedTemplate.ErrorPlaces
import MarkupTemplates.Proofs.ParsedTemplate.Inheritance
import MarkupTemplates.Proofs.Text.Trim

namespace MarkupTemplates

/-- The dialect without code for any statement. -/
def Dialect.refusing (dialect : Dialect) (refuse : Directive → CodeError) : Dialect :=
  { dialect with statement := fun directive _ => .error (refuse directive) }

/-- The kind of a statement that goes by a name. -/
def DirectiveNames.statementKind? (names : DirectiveNames) (name : Text) : Option DirectiveKind :=
  match names.kindOf? name with
  | some kind => if kind.isStatement then some kind else none
  | none => none

/-- The statements of a tag in front of the first macro declaration. -/
def Walk.statementsAhead (names : DirectiveNames) (tag : Tag) : List (DirectiveKind × Attribute) :=
  statementsOf names
    { tag with attributes := tag.attributes.takeWhile fun a => names.kindOf? a.name ≠ some .defineMacro }

/-- The statements in front of the declaration of the macro that the duty comes to. There are none in front of a
comment. -/
def Duty.statementsAhead (names : DirectiveNames) : Duty → List (DirectiveKind × Attribute)
  | row _ (.element tag _ _ :: _) => Walk.statementsAhead names tag
  | _ => []

variable {Compiled : Type}

theorem Walk.advance_of_undeclared {job : Job Compiled} {w : Walk Compiled} {rest : List Duty} {tag : Tag} {stop : Nat}
    {children nodes : List Node} (undeclared : declarationOf? job.names tag = none) :
    advance job w rest (.row none (.element tag stop children :: nodes)) =
      .ok (w, (statementsOf job.names tag).map (fun (kind, a) => .statement tag kind a) ++
        .row none children :: ((endings job tag).map (.closing stop) ++ .row none nodes :: rest)) := by
  rw [advance, undeclared]

/-- A walk past the element of a macro has read the head of the macro and parsed the body. -/
theorem Walk.siblings_macro {job : Job Compiled} {w w' : Walk Compiled} {tag : Tag} {stop : Nat}
    {children nodes : List Node} {declaration : Attribute} (declares : declarationOf? job.names tag = some declaration)
    (walked : siblings job none w (.element tag stop children :: nodes) = .ok w') :
    ∃ head events template, MacroHead.read declaration.name (declaration.value.getD []) = .ok head ∧
      job.parseBody (job.resource.extract head.name (MacroBody.ofElement job.resource.source tag stop declaration
        (job.names.name .var) head.parameters).text) = (events, .ok template) := by
  obtain ⟨_, step, _⟩ := ok_of_bind walked
  rw [node, declares] at step
  simp only [Option.isSome_none, Bool.false_eq_true, if_false] at step
  obtain ⟨_, made, _⟩ := ok_of_bind step
  obtain ⟨head, headed, made⟩ := ok_of_bind made
  obtain ⟨done, registered, _⟩ := ok_of_bind made
  obtain ⟨_, events, template, _, _, body, _⟩ := register_inversion registered
  refine ⟨head, events, template, ?_, body⟩
  unfold macroHead at headed
  split at headed
  · next found => rw [found, Except.ok.inj headed]
  · cases headed

namespace Parser

variable {parser : Parser Compiled} {stream : Bool} {depth : Nat} {resource : Resource} {directive : Directive}

def refusingAll (parser : Parser Compiled) (refuse : Directive → CodeError) : Parser Compiled :=
  { parser with dialect := parser.dialect.refusing refuse }

/-- Of all statements in the source and in its macros, the dialect is asked for this one first: if it refuses all
of them, it is this one that the parse fails at. -/
def AsksFirst (parser : Parser Compiled) (stream : Bool) (depth : Nat) (resource : Resource)
    (directive : Directive) : Prop :=
  ∀ refuse : Directive → CodeError, ∃ e,
    ((parser.refusingAll refuse).parseWithin stream depth resource).2 = .error e ∧
      e.fault = .invalidDirective directive.name directive.value (refuse directive).message

/-- In the course of a parse a walk takes up the duty, and registers the macro that it comes to. -/
def Registers (parser : Parser Compiled) (stream : Bool) (depth : Nat) (resource : Resource) (duty : Duty)
    (head : MacroHead) (body : MacroBody) : Prop :=
  ∃ requests w rest segments span done,
    Walk.Runs (parser.job stream depth resource) {} [.row none resource.source.nodes] requests w (duty :: rest) ∧
      duty.Extracts parser.names resource.source head body segments ∧
      w.register (parser.job stream depth resource) head body span = .ok done

theorem AsksFirst.unique {other : Directive} (one : parser.AsksFirst stream depth resource directive)
    (two : parser.AsksFirst stream depth resource other) : directive = other := by
  by_contra different
  -- a dialect can tell the two apart in its messages
  let refuse (found : Directive) : CodeError := ⟨if found = directive then [] else ['!'], none⟩
  obtain ⟨e, failed, fault⟩ := one refuse
  obtain ⟨e', failed', fault'⟩ := two refuse
  obtain rfl := Except.error.inj (failed.symm.trans failed')
  have message := (ParseFault.invalidDirective.inj (fault.symm.trans fault')).2.2
  simp only [refuse, if_true, if_neg (Ne.symm different)] at message
  exact absurd message (by simp)

/-- Where nothing else is asked for before a statement, that one comes first. -/
theorem asksFirst_of_run {duty : Duty} (asks : duty.requests parser.names resource.source = [.statement directive])
    (runs : ∀ refuse : Directive → CodeError, ∃ requests w rest,
      Walk.Runs ((parser.refusingAll refuse).job stream depth resource) {} [.row none resource.source.nodes] requests w
        (duty :: rest)) : parser.AsksFirst stream (depth + 1) resource directive := by
  intro refuse
  obtain ⟨requests, w, rest, run⟩ := runs refuse
  have refused : ((parser.refusingAll refuse).job stream depth resource).dialect.statement directive w.symbols =
      .error (refuse directive) := rfl
  exact ⟨_, parseWithin_of_stuck run (Walk.advance_of_refused _ rest directive asks refused), rfl⟩

theorem asksFirst_of_comment {span : Span} {rest : List Node} (nodes : resource.source.nodes = .comment span :: rest)
    (role : commentRole parser.names resource.source none span = .statement directive) :
    parser.AsksFirst stream (depth + 1) resource directive := by
  have asks : (Duty.row none (.comment span :: rest)).requests parser.names resource.source = [.statement directive] := by
    rw [Duty.requests, role]
    rfl
  refine asksFirst_of_run asks fun refuse => ⟨[], {}, [], ?_⟩
  rw [nodes]
  exact .done

theorem asksFirst_of_tag {tag : Tag} {stop : Nat} {children rest : List Node} {kind : DirectiveKind} {a : Attribute}
    {more : List (DirectiveKind × Attribute)} (nodes : resource.source.nodes = .element tag stop children :: rest)
    (undeclared : Walk.declarationOf? parser.names tag = none)
    (statements : Walk.statementsOf parser.names tag = (kind, a) :: more) :
    parser.AsksFirst stream (depth + 1) resource (a.statement kind) := by
  have asks : (Duty.statement tag kind a).requests parser.names resource.source = [.statement (a.statement kind)] := rfl
  refine asksFirst_of_run asks fun refuse => ?_
  have step := @Walk.advance_of_undeclared _ ((parser.refusingAll refuse).job stream depth resource) {} [] tag stop
    children rest undeclared
  rw [show Walk.statementsOf ((parser.refusingAll refuse).job stream depth resource).names tag = (kind, a) :: more from
    statements] at step
  rw [nodes]
  exact ⟨_, _, _, .step step .done⟩

/-- What is asked for first in the body of a macro is so in the source, if the macro comes first. -/
theorem asksFirst_of_macro {tag : Tag} {stop : Nat} {children rest : List Node} {declaration : Attribute}
    {head : MacroHead} (nodes : resource.source.nodes = .element tag stop children :: rest)
    (declares : Walk.declarationOf? parser.names tag = some declaration)
    (read : MacroHead.read declaration.name (declaration.value.getD []) = .ok head)
    (body : parser.AsksFirst stream depth (resource.extract head.name
      (MacroBody.ofElement resource.source tag stop declaration (parser.names.name .var) head.parameters).text)
        directive) : parser.AsksFirst stream (depth + 1) resource directive := by
  intro refuse
  obtain ⟨e, failed, fault⟩ := body refuse
  let job := (parser.refusingAll refuse).job stream depth resource
  have extracts := @Duty.Extracts.element parser.names resource.source tag stop children rest declaration head declares
    read
  have free : ({} : Walk Compiled).symbols.declare head.name templateType = .ok _ := rfl
  obtain ⟨events, stuck⟩ := Walk.advance_of_failed job [] extracts free failed
  have run : Walk.Runs job {} [.row none resource.source.nodes] [] {} [.row none (.element tag stop children :: rest)] := by
    rw [nodes]
    exact .done
  exact ⟨_, parseWithin_of_stuck run stuck, fault⟩

end Parser

/-- Pieces that begin with a comment form nodes that begin with it. -/
theorem Formed.first_comment {outer : List Text} {start : Nat} {text : Text} {tail : List Token} {nodes : List Node}
    {left : List Text} (formed : Formed outer start (.comment text :: tail) nodes left) :
    ∃ rest, nodes = .comment ⟨start, start + text.byteSize⟩ :: rest := by
  cases formed with
  | comment => exact ⟨_, rfl⟩

/-- Pieces that begin with a start tag form nodes that begin with its element. -/
theorem Formed.first_tag {outer : List Text} {start : Nat} {first : Token} {tail : List Token} {nodes : List Node}
    {left : List Text} {written : WrittenTag} (formed : Formed outer start (first :: tail) nodes left)
    (tagged : first.tag? = some written) :
    ∃ stop children rest, nodes = .element (written.located start) stop children :: rest := by
  cases formed with
  | plain => exact absurd tagged nofun
  | stray => exact absurd tagged nofun
  | comment => exact absurd tagged nofun
  | whole =>
    obtain rfl := Option.some.inj tagged
    exact ⟨_, _, _, rfl⟩
  | raw =>
    obtain rfl := Option.some.inj tagged
    exact ⟨_, _, _, rfl⟩
  | closed =>
    obtain rfl := Option.some.inj tagged
    exact ⟨_, _, _, rfl⟩
  | unclosed =>
    obtain rfl := Option.some.inj tagged
    exact ⟨_, _, _, rfl⟩

/-- Pieces of a source take up room. -/
theorem byteSize_spelling_pos {tokens : List Token} {source : Text}
    (among : ∀ token ∈ tokens, token ∈ Scan.tokens source) (some_tokens : tokens ≠ []) :
    0 < (spelling tokens).byteSize := by
  obtain ⟨token, rest, rfl⟩ := List.exists_cons_of_ne_nil some_tokens
  have own := Text.byteSize_pos (Scan.tokens_text_ne_nil source token (among token List.mem_cons_self))
  rw [byteSize_spelling_cons]
  omega

/-- If the first element of a source is a macro, then the body begins with a tag that has the attributes in front of
the declaration, unless the slash of the tag joins the last of them. -/
theorem body_of_first_tag {source : Text} {first : Token} {tail : List Token} {written : WrittenTag}
    {names : DirectiveNames} {stop : Nat} {children rest : List Node} {declaration : Attribute}
    (read : Scan.tokens source = first :: tail) (tagged : first.tag? = some written)
    (nodes : source.nodes = .element (written.located 0) stop children :: rest)
    (declares : Walk.declarationOf? names (written.located 0) = some declaration)
    (word : IsAttributeWord (names.name .var)) (parameters : Option Text) :
    ∃ before own after, written.attributes = before ++ own :: after ∧ names.kindOf? own.name = some .defineMacro ∧
      ∃ tail' first' other, Scan.tokens (MacroBody.ofElement source (written.located 0) stop declaration
          (names.name .var) parameters).text = first' :: tail' ∧ first'.tag? = some other ∧
        written.OfBody (names.name .var) before after parameters other := by
  obtain ⟨kind, front, back, split, _⟩ := List.find?_eq_some_iff_append.mp declares
  obtain ⟨ahead, first2, tail2, behind, written2, position, before, own, after, here, tagged2, located, attributes, _,
    rfl, first', other, body⟩ :=
    written_elementBody .roots (by rw [nodes]; exact List.mem_cons_self) split word parameters
  -- nothing stands in front of the first piece
  have start : (spelling ahead).byteSize = 0 := (congrArg (fun tag => tag.span.start) located).symm
  obtain rfl : ahead = [] := by
    by_contra some_ahead
    have := @byteSize_spelling_pos ahead source (fun token member => by rw [here]; simp [member]) some_ahead
    omega
  rw [read, List.nil_append, List.cons_append] at here
  obtain ⟨rfl, _⟩ := List.cons.inj here
  obtain rfl := Option.some.inj (tagged.symm.trans tagged2)
  exact ⟨before, own, after, attributes, of_decide_eq_true kind, tail2, first', other, body⟩

/-- The statement of an attribute does not depend on where the attribute stands. -/
theorem WrittenAttribute.statement_located (a : WrittenAttribute) (kind : DirectiveKind) (start : Nat) :
    let directive := (a.located start).statement kind
    directive.kind = kind ∧ directive.name = a.name ∧ directive.value = Text.trim (a.reading.2.getD []) :=
  ⟨rfl, rfl, rfl⟩

theorem Walk.statementsOf_eq (names : DirectiveNames) (tag : Tag) : statementsOf names tag =
    tag.attributes.filterMap fun a => (names.statementKind? a.name).map fun kind => (kind, a) := by
  refine List.filterMap_congr fun a _ => ?_
  rw [DirectiveNames.statementKind?]
  cases names.kindOf? a.name with
  | none => rfl
  | some kind =>
    simp only
    split <;> rfl

theorem exists_located {a : WrittenAttribute} {list : List WrittenAttribute} (position : Nat) (member : a ∈ list) :
    ∃ start, a.located start ∈ locatedInRow position list := by
  obtain ⟨before, after, rfl⟩ := List.append_of_mem member
  rw [locatedInRow_append, locatedInRow]
  exact ⟨_, List.mem_append_right _ List.mem_cons_self⟩

theorem no_statement_located {names : DirectiveNames} {list : List WrittenAttribute}
    (unstated : ∀ a ∈ list, names.statementKind? a.name = none) (position : Nat) :
    (locatedInRow position list).filterMap (fun a => (names.statementKind? a.name).map fun kind => (kind, a)) = [] := by
  rw [List.filterMap_eq_nil_iff]
  intro a member
  obtain ⟨_, found, _, rfl, rfl⟩ := mem_locatedInRow member
  rw [Option.map_eq_none_iff]
  exact unstated found (by simp)

/-- What is the first statement among attributes in a row does not depend on where they stand. -/
theorem first_statement_located {names : DirectiveNames} {before : List WrittenAttribute} {own : WrittenAttribute}
    {kind : DirectiveKind} (unstated : ∀ a ∈ before, names.statementKind? a.name = none)
    (stated : names.statementKind? own.name = some kind) (position : Nat) (after : List WrittenAttribute) :
    ((locatedInRow position (before ++ own :: after)).filterMap
      fun a => (names.statementKind? a.name).map fun kind => (kind, a)).head? =
        some (kind, own.located (position + sizeInRow before)) := by
  rw [locatedInRow_append, List.filterMap_append, no_statement_located unstated, List.nil_append, locatedInRow,
    List.filterMap_cons, show (own.located _).name = own.name from rfl, stated]
  rfl

section

variable {fixed before after : List WrittenAttribute} {own : WrittenAttribute} {names : DirectiveNames}

/-- Attributes in front that declare no macro stand in front of the first declaration. -/
theorem front_of_declaration (within : fixed <+: before ++ own :: after)
    (undeclared : ∀ a ∈ fixed, names.kindOf? a.name ≠ some .defineMacro)
    (declares : names.kindOf? own.name = some .defineMacro) : fixed <+: before := by
  obtain ⟨more, eq⟩ := within
  rcases List.append_eq_append_iff.mp eq with ⟨rest, rfl, _⟩ | ⟨rest, rfl, split⟩
  · exact List.prefix_append fixed rest
  · cases rest with
    | nil => exact ⟨[], by rw [List.append_nil, List.append_nil]⟩
    | cons a rest =>
      obtain ⟨rfl, _⟩ := List.cons.inj split
      exact absurd declares (undeclared _ (by simp))

/-- The tag of a body keeps the attributes in front of the declaration, if the last of them ends in a quotation
mark. -/
theorem WrittenTag.OfBody.keeps {var : Text} {written other : WrittenTag} {parameters : Option Text}
    (ofBody : written.OfBody var before after parameters other) (within : fixed <+: before)
    (quoted : ∀ a, fixed.getLast? = some a → a.isUnquoted = false) : fixed <+: other.attributes := by
  cases ofBody with
  | replaced => exact within.trans (List.prefix_append ..)
  | removed =>
    cases after with
    | nil => exact within
    | cons next after => exact within.trans (List.prefix_append ..)
  | @slashed earlier last eq _ unquoted =>
    subst eq
    rcases List.prefix_concat_iff.mp within with rfl | within
    · have := quoted last (by rw [List.getLast?_append, List.getLast?_singleton, Option.some_or])
      exact absurd (this.symm.trans unquoted) Bool.false_ne_true
    · exact within.trans (List.prefix_append ..)

end

namespace Parser

variable {parser : Parser Compiled} {stream : Bool} {directive : Directive}

/-- A source that begins with a tag is asked about the first statement in it first, even if the element is a macro,
and its body another one, and so on: the declarations come after the statement and leave it as it is. -/
theorem asksFirst_through_macros (word : IsAttributeWord (parser.names.name .var)) {kind : DirectiveKind}
    {before between : List WrittenAttribute} {own : WrittenAttribute}
    (unstated : ∀ a ∈ before, parser.names.statementKind? a.name = none)
    (stated : parser.names.statementKind? own.name = some kind)
    (undeclared : ∀ a ∈ before ++ own :: between, parser.names.kindOf? a.name ≠ some .defineMacro)
    (quoted : ∀ a, (before ++ own :: between).getLast? = some a → a.isUnquoted = false) {depth : Nat}
    {resource : Resource} {first : Token} {tail : List Token} {written : WrittenTag}
    (read : Scan.tokens resource.source = first :: tail) (tagged : first.tag? = some written)
    (within : before ++ own :: between <+: written.attributes) {events : List Event}
    {template : ParsedTemplate Compiled}
    (parsed : parser.parseWithin stream depth resource = (events, .ok template)) :
    ∃ directive, parser.AsksFirst stream depth resource directive ∧ directive.kind = kind ∧
      directive.name = own.name ∧ directive.value = Text.trim (own.reading.2.getD []) := by
  induction depth generalizing resource first tail written events template with
  | zero => simp [parseWithin] at parsed
  | succ depth ih =>
    obtain ⟨_, formed⟩ := formed_nodes resource.source
    rw [read] at formed
    obtain ⟨stop, children, rest, nodes⟩ := formed.first_tag tagged
    cases declares : Walk.declarationOf? parser.names (written.located 0) with
    | none =>
      obtain ⟨more, attributes⟩ := within
      rw [List.append_assoc, List.cons_append] at attributes
      have first := first_statement_located unstated stated (0 + 1 + Text.byteSize written.name) (between ++ more)
      rw [attributes] at first
      obtain ⟨others, statements⟩ := List.head?_eq_some_iff.mp first
      exact ⟨_, asksFirst_of_tag nodes declares ((Walk.statementsOf_eq ..).trans statements),
        own.statement_located kind _⟩
    | some declaration =>
      obtain ⟨_, w, eq, walked, _⟩ := parseWithin_ok parsed
      obtain rfl := Nat.succ.inj eq
      rw [nodes] at walked
      obtain ⟨head, events, inner, head_read, body⟩ := Walk.siblings_macro declares walked
      obtain ⟨front, declaring, after, attributes, macro_kind, tail', first', other, read', tagged', ofBody⟩ :=
        body_of_first_tag read tagged nodes declares word head.parameters
      have kept := ofBody.keeps (front_of_declaration (attributes ▸ within) undeclared macro_kind) quoted
      obtain ⟨directive, asks, known⟩ := ih read' tagged' kept body
      exact ⟨directive, asksFirst_of_macro nodes declares head_read asks, known⟩

/-- The statements ahead of a declaration are those among the attributes in front of it. -/
theorem statementsAhead_of_split {names : DirectiveNames} {tag : Tag} {front back : List Attribute} {a : Attribute}
    (split : tag.attributes = front ++ a :: back) (declares : decide (names.kindOf? a.name = some .defineMacro) = true)
    (earlier : ∀ a ∈ front, (!decide (names.kindOf? a.name = some .defineMacro)) = true) :
    Walk.statementsAhead names tag =
      front.filterMap fun a => (names.statementKind? a.name).map fun kind => (kind, a) := by
  have taken := @List.takeWhile_append_of_pos _ (fun a => decide (names.kindOf? a.name ≠ some .defineMacro))
    _ (a :: back) fun a member => by simpa using earlier a member
  rw [← split, List.takeWhile_cons_of_neg (by simpa using declares), List.append_nil] at taken
  rw [Walk.statementsAhead, Walk.statementsOf_eq, taken]

/-- The body of the macro that an element becomes: statements of the element come first as far as they stand in front
of the declaration, then the parameters. -/
theorem asksFirst_of_element (word : IsAttributeWord (parser.names.name .var))
    (var : parser.names.kindOf? (parser.names.name .var) = some .var) {depth : Nat} {source : Text} {row children : List Node}
    {tag : Tag} {stop : Nat} {declaration : Attribute} {p : Text} {resource : Resource}
    (siblings : Siblings source.nodes row) (member : .element tag stop children ∈ row)
    (declares : Walk.declarationOf? parser.names tag = some declaration)
    (body : resource.source =
      (MacroBody.ofElement source tag stop declaration (parser.names.name .var) (some p)).text)
    {events : List Event} {template : ParsedTemplate Compiled}
    (parsed : parser.parseWithin stream depth resource = (events, .ok template)) (trimmed : p.trim = p) :
    ∃ directive, parser.AsksFirst stream depth resource directive ∧ (directive.kind, directive.value) =
      (Walk.statementsAhead parser.names tag).head?.elim (.var, p) fun ahead =>
        (ahead.1, Text.trim (ahead.2.value.getD [])) := by
  obtain ⟨macro_kind, front, back, split, earlier⟩ := List.find?_eq_some_iff_append.mp declares
  obtain ⟨_, _, _, _, written, position, before, own, after, _, _, _, _, rfl, rfl, first, other, read, tagged, ofBody⟩ :=
    written_elementBody siblings member split word (some p)
  rw [← body] at read
  obtain ⟨blanks, rfl⟩ : ∃ blanks, other = written.redeclared before blanks (parser.names.name .var) p after := by
    cases ofBody
    exact ⟨_, rfl⟩
  let declaring := (WrittenAttribute.declaring (parser.names.name .var) p).indented blanks
  have declared : declaring.reading = (parser.names.name .var, some p) := WrittenAttribute.reading_declaring ..
  have stated : parser.names.statementKind? declaring.name = some .var := by
    rw [show declaring.name = parser.names.name .var from rfl, DirectiveNames.statementKind?, var]
    rfl
  have unmarked : ∀ a ∈ before ++ [declaring], parser.names.kindOf? a.name ≠ some .defineMacro := by
    intro a member
    rcases List.mem_append.mp member with member | member
    · obtain ⟨_, located⟩ := exists_located position member
      have known := earlier _ located
      rw [Bool.not_eq_true', decide_eq_false_iff_not] at known
      exact known
    · rw [List.mem_singleton.mp member, show declaring.name = parser.names.name .var from rfl, var]
      exact nofun
  have quoted : ∀ a, (before ++ [declaring]).getLast? = some a → a.isUnquoted = false := by
    intro a last
    rw [List.getLast?_append, List.getLast?_singleton, Option.some_or] at last
    rw [← Option.some.inj last]
    rfl
  have within : before ++ [declaring] <+: (written.redeclared before blanks (parser.names.name .var) p after).attributes :=
    ⟨after, by rw [List.append_assoc]; rfl⟩
  rw [statementsAhead_of_split split macro_kind earlier]
  cases stands : before.find? fun a => (parser.names.statementKind? a.name).isSome with
  | none =>
    have unstated : ∀ a ∈ before, parser.names.statementKind? a.name = none := fun a member => by
      simpa using List.find?_eq_none.mp stands a member
    obtain ⟨directive, asks, kind, _, value⟩ :=
      asksFirst_through_macros word unstated stated unmarked quoted read tagged within parsed
    refine ⟨directive, asks, ?_⟩
    rw [no_statement_located unstated, kind, value, declared]
    exact congrArg (Prod.mk _) trimmed
  | some found =>
    obtain ⟨kind_some, first_part, between, rfl, unstated⟩ := List.find?_eq_some_iff_append.mp stands
    obtain ⟨kind, found_kind⟩ := Option.isSome_iff_exists.mp kind_some
    rw [List.append_assoc, List.cons_append] at unmarked quoted within
    have none_first : ∀ a ∈ first_part, parser.names.statementKind? a.name = none := fun a member => by
      simpa using unstated a member
    obtain ⟨directive, asks, kind_eq, _, value⟩ :=
      asksFirst_through_macros word none_first found_kind unmarked quoted read tagged within parsed
    refine ⟨directive, asks, ?_⟩
    rw [first_statement_located none_first found_kind, kind_eq, value]
    rfl

end Parser

theorem MacroHead.parameters_trimmed {directive value p : Text} {head : MacroHead}
    (read : MacroHead.read directive value = .ok head) (declared : head.parameters = some p) : p.trim = p := by
  obtain ⟨_, _, all, _, _, rfl⟩ := MacroHead.parameters_origin read declared
  exact all.trim_trim

theorem CommentDirective.isNameChar_of_read? {start : Nat} {comment : Text} {found : CommentDirective}
    (read : read? start comment = some found) : ∀ c ∈ found.name, isNameChar c = true := by
  obtain ⟨w, legible, _, rfl⟩ := read?_eq_some_iff.mp read
  exact legible.name

/-- A comment that declares parameters is like any other where comments cannot have the word for them. -/
theorem commentRole_declaring_otherwise {names : DirectiveNames} {p : Text}
    (word : IsAttributeWord (names.name .var)) {c : Char} (member : c ∈ names.name .var)
    (outside : CommentDirective.isNameChar c = false) (rest : Text) :
    let comment := MacroBody.declaringComment (names.name .var) p
    commentRole names (comment ++ rest) none ⟨0, comment.byteSize⟩ = .text := by
  intro comment
  have here : (comment ++ rest).at ⟨0, comment.byteSize⟩ = comment := Text.slice_append_front comment rest
  have unread : CommentDirective.read? 0 comment = none := by
    rw [Option.eq_none_iff_forall_ne_some]
    intro found read
    have inside := CommentDirective.isNameChar_of_read? read c
    rw [CommentDirective.read?_declaring word read, outside] at inside
    exact absurd (inside member) Bool.false_ne_true
  rw [commentRole, here, unread]

namespace Parser

variable {parser : Parser Compiled} {stream : Bool} {depth : Nat} {resource : Resource} {duty : Duty}
  {head : MacroHead} {body : MacroBody}

theorem Registers.arises (registers : parser.Registers stream depth resource duty head body) :
    duty.Arises parser.names resource.source := by
  obtain ⟨_, _, _, _, _, _, run, _⟩ := registers
  exact ⟨run.from_roots duty List.mem_cons_self,
    run.declared (fun _ member => List.mem_singleton.mp member ▸ nofun) duty List.mem_cons_self⟩

theorem Registers.parsed (registers : parser.Registers stream depth resource duty head body) :
    ∃ events template,
      parser.parseWithin stream depth (resource.extract head.name body.text) = (events, .ok template) := by
  obtain ⟨_, _, _, _, _, _, _, _, registered⟩ := registers
  obtain ⟨_, events, template, _, _, parsed, _⟩ := Walk.register_inversion registered
  exact ⟨events, template, parsed⟩

theorem registers_of_run {requests : List Request} {w : Walk Compiled} {rest : List Duty} {segments : List Segment}
    (span : Span) (run : Walk.Runs (parser.job stream depth resource) {} [.row none resource.source.nodes] requests w
      (duty :: rest)) (extracts : duty.Extracts parser.names resource.source head body segments)
    (registered : (w.register (parser.job stream depth resource) head body span).isOk = true) :
    parser.Registers stream depth resource duty head body := by
  cases made : w.register (parser.job stream depth resource) head body span with
  | error failure =>
    rw [made] at registered
    exact absurd registered Bool.false_ne_true
  | ok done => exact ⟨_, w, rest, segments, span, done, run, extracts, made⟩

/-- The body that a run between comments gives begins with the comment that declares the parameters. -/
theorem Registers.declaring {opened : Option OpenMacro} {span : Span} {rest : List Node} {p : Text}
    (registers : parser.Registers stream depth resource (.row opened (.comment span :: rest)) head body)
    (word : IsAttributeWord (parser.names.name .var)) (parameters : head.parameters = some p) :
    let comment := MacroBody.declaringComment (parser.names.name .var) p
    ∃ run nodes, body.text = comment ++ run ∧ body.text.nodes = .comment ⟨0, comment.byteSize⟩ :: nodes := by
  intro comment
  obtain ⟨here, declared⟩ := registers.arises
  obtain ⟨_, _, _, _, _, _, _, extracts, _⟩ := registers
  cases extracts with
  | @run opened found _ _ _ closes read =>
    obtain rfl : opened = found := by
      have known := commentRole_ok parser.names resource.source (some opened) span
      rw [closes] at known
      exact Option.some.inj known
    obtain ⟨_, _, siblings⟩ := here.opening
    obtain ⟨_, middle, _, _, _, _, pieces⟩ := tokens_of_runBody siblings (declared opened rfl) read word
    rw [parameters, Option.map_some, Option.toList_some, List.singleton_append] at pieces
    rw [parameters]
    obtain ⟨_, formed⟩ := formed_nodes (MacroBody.ofRun resource.source ⟨opened.comment.stop, span.start⟩
      opened.comment.start (parser.names.name .var) (some p)).text
    rw [pieces] at formed
    obtain ⟨nodes, first⟩ := formed.first_comment
    rw [Nat.zero_add] at first
    exact ⟨resource.source.at ⟨opened.comment.stop, span.start⟩, nodes, rfl, first⟩

theorem Registers.asksFirst_of_run {opened : Option OpenMacro} {span : Span} {rest : List Node} {p : Text}
    (registers : parser.Registers stream depth resource (.row opened (.comment span :: rest)) head body)
    (word : IsAttributeWord (parser.names.name .var)) (parameters : head.parameters = some p)
    (letters : ∀ c ∈ parser.names.name .var, CommentDirective.isNameChar c = true)
    (var : parser.names.kindOf? (parser.names.name .var) = some .var) :
    ∃ directive, parser.AsksFirst stream depth (resource.extract head.name body.text) directive ∧
      directive.kind = .var ∧ directive.name = parser.names.name .var ∧ directive.value = p ∧ directive.start = 4 := by
  obtain ⟨_, _, parsed⟩ := registers.parsed
  obtain ⟨run, nodes, text, first⟩ := registers.declaring word parameters
  obtain ⟨_, _, _, _, _, _, _, extracts, _⟩ := registers
  obtain ⟨directive, role, kind, name, value, start⟩ := MacroBody.commentRole_declaringComment word.1 letters var rfl [] p run
  rw [List.nil_append, Text.byteSize_nil, Nat.zero_add] at role
  have trimmed : p.trim = p := by
    cases extracts with
    | run _ read => exact MacroHead.parameters_trimmed read parameters
  rw [trimmed] at value
  rw [← text] at role
  cases depth with
  | zero => simp [parseWithin] at parsed
  | succ depth => exact ⟨directive, asksFirst_of_comment first role, kind, name, value, start⟩

/-- What comes first in the body of a macro with parameters: the statement that the element begins with in front of the
declaration, if there is one, and the declaration of the parameters otherwise. In the body that stands between
comments the parameters come first always. -/
theorem first_statement_of_body {p : Text} (default : parser.names = .default)
    (registers : parser.Registers stream depth resource duty head body) (parameters : head.parameters = some p) :
    ∃ directive, parser.AsksFirst stream depth (resource.extract head.name body.text) directive ∧
      (directive.kind, directive.value) = (duty.statementsAhead parser.names).head?.elim (.var, p) fun ahead =>
        (ahead.1, Text.trim (ahead.2.value.getD [])) := by
  have word : IsAttributeWord (parser.names.name .var) := by rw [default]; decide
  have var : parser.names.kindOf? (parser.names.name .var) = some .var := by rw [default]; decide
  obtain ⟨_, _, parsed⟩ := registers.parsed
  have extracts := registers
  obtain ⟨_, _, _, _, _, _, _, extracts, _⟩ := extracts
  cases extracts with
  | element declares read =>
    obtain ⟨⟨_, siblings, _⟩, _⟩ := registers.arises
    exact asksFirst_of_element word var siblings (List.mem_append_right _ List.mem_cons_self) declares
      (by rw [← parameters]; rfl) parsed (MacroHead.parameters_trimmed read parameters)
  | run closes read =>
    have letters : ∀ c ∈ parser.names.name .var, CommentDirective.isNameChar c = true := by
      rw [default]
      exact List.all_eq_true.mp rfl
    obtain ⟨directive, asks, kind, _, value, _⟩ := registers.asksFirst_of_run word parameters letters var
    refine ⟨directive, asks, ?_⟩
    rw [kind, value]
    rfl

/-- An element that names a condition behind the declaration of the macro. -/
theorem first_statement_of_body_of_list_item :
    let source : Text := "<li class='c' macro='m(String a)' if='x'>y</li>"
    let resource : Resource := { name := "page", source }
    ∃ duty head body directive, Parser.echo.Registers false 2 resource duty head body ∧
      head.parameters = some "String a" ∧
      Parser.echo.AsksFirst false 2 (resource.extract head.name body.text) directive ∧
      directive.kind = .var ∧ directive.value = ("String a" : Text) := by
  intro source resource
  let declaration : Attribute := ⟨"macro", some "m(String a)", ⟨14, 33⟩, some 21⟩
  let tag : Tag := ⟨"li", [⟨"class", some "c", ⟨4, 13⟩, some 11⟩, declaration, ⟨"if", some "x", ⟨34, 40⟩, some 38⟩], ⟨0, 41⟩⟩
  let head : MacroHead := ⟨"m", some "String a"⟩
  have nodes : source.nodes = [.element tag 47 []] := by decide +kernel
  have registers : Parser.echo.Registers false 2 resource (.row none [.element tag 47 []]) head
      (MacroBody.ofElement source tag 47 declaration (Parser.echo.names.name .var) head.parameters) :=
    registers_of_run ⟨0, 47⟩ (by rw [nodes]; exact .done) (.element (by decide +kernel) (by decide +kernel))
      (by decide +kernel)
  obtain ⟨directive, asks, same⟩ := first_statement_of_body rfl registers rfl
  have none_ahead : Walk.statementsAhead Parser.echo.names tag = [] := by decide +kernel
  rw [Duty.statementsAhead, none_ahead] at same
  obtain ⟨kind, value⟩ := Prod.mk.inj same
  exact ⟨_, head, _, directive, registers, rfl, asks, kind, value⟩

/-- A condition that is written in front of the declaration comes before the parameters. -/
theorem condition_before_parameters :
    let source : Text := "<p if='x' macro='m(a)'>y</p>"
    let resource : Resource := { name := "page", source }
    ∃ duty head body, Parser.echo.Registers false 2 resource duty head body ∧ head.parameters = some "a" ∧
      body.text = ("<p if='x' var=\"a\">y</p>" : Text) ∧
      (∃ directive, Parser.echo.AsksFirst false 2 (resource.extract head.name body.text) directive ∧
        directive.kind = .ifTrue) ∧
      ¬ ∃ directive, Parser.echo.AsksFirst false 2 (resource.extract head.name body.text) directive ∧
        directive.kind = .var ∧ directive.value = ("a" : Text) := by
  intro source resource
  let condition : Attribute := ⟨"if", some "x", ⟨3, 9⟩, some 7⟩
  let declaration : Attribute := ⟨"macro", some "m(a)", ⟨10, 22⟩, some 17⟩
  let tag : Tag := ⟨"p", [condition, declaration], ⟨0, 23⟩⟩
  let head : MacroHead := ⟨"m", some "a"⟩
  have nodes : source.nodes = [.element tag 28 []] := by decide +kernel
  have registers : Parser.echo.Registers false 2 resource (.row none [.element tag 28 []]) head
      (MacroBody.ofElement source tag 28 declaration (Parser.echo.names.name .var) head.parameters) :=
    registers_of_run ⟨0, 28⟩ (by rw [nodes]; exact .done) (.element (by decide +kernel) (by decide +kernel))
      (by decide +kernel)
  let text : Text := "<p if='x' var=\"a\">y</p>"
  have body : (MacroBody.ofElement source tag 28 declaration (Parser.echo.names.name .var) head.parameters).text = text := by
    decide +kernel
  let parameters : Attribute := ⟨"var", some "a", ⟨10, 17⟩, some 15⟩
  let tag' : Tag := ⟨"p", [condition, parameters], ⟨0, 18⟩⟩
  have statements : Walk.statementsOf Parser.echo.names tag' = [(.ifTrue, condition), (.var, parameters)] := by
    decide +kernel
  have inner : text.nodes = [.element tag' 23 []] := by decide +kernel
  have asks : Parser.echo.AsksFirst false 2 (resource.extract head.name text) (condition.statement .ifTrue) :=
    asksFirst_of_tag inner (by decide +kernel) statements
  rw [← body] at asks
  refine ⟨_, head, _, registers, rfl, body, ⟨_, asks, rfl⟩, fun ⟨directive, other, kind, _⟩ => ?_⟩
  rw [← asks.unique other] at kind
  exact absurd kind nofun

end Parser

theorem layout_keeps_front {names : DirectiveNames} {source : Text} {lo hi : Nat} {nodes : List Node}
    (placed : Placed source lo hi nodes) (atHi : source.IsBoundary hi) (cursor : Nat) :
    ∃ q more, layout names source cursor hi none nodes = .kept ⟨cursor, q⟩ :: more ∧ lo ≤ q ∧ source.IsBoundary q := by
  induction placed with
  | @nil lo hi less => exact ⟨hi, [], rfl, less, atHi⟩
  | @comment lo hi span rest lower atStart forward _ _ ih =>
    rw [layout_comment]
    have known := commentRole_ok names source none span
    cases role : commentRole names source none span with
    | text =>
      obtain ⟨q, more, eq, above, boundary⟩ := ih atHi
      exact ⟨q, more, eq, by omega, boundary⟩
    | closesMacro found =>
      rw [role] at known
      exact absurd known nofun
    | _ => exact ⟨span.start, _, rfl, lower, atStart⟩
  | @element lo hi stop tag children rest lower atStart =>
    rw [layout]
    exact ⟨tag.span.start, _, rfl, lower, atStart⟩

/-- A comment at the front that is no directive is kept. -/
theorem Parser.comment_kept {parser : Parser Compiled} {stream : Bool} {depth : Nat} {resource : Resource}
    {comment run : Text} {rest : List Node} (text : resource.source = comment ++ run)
    (nodes : resource.source.nodes = .comment ⟨0, comment.byteSize⟩ :: rest)
    (role : commentRole parser.names resource.source none ⟨0, comment.byteSize⟩ = .text) {events : List Event}
    {template : ParsedTemplate Compiled} (parsed : parser.parseWithin stream depth resource = (events, .ok template)) :
    comment <+: template.code := by
  have written := parseWithin_written parsed
  have placed := placed_nodes resource.source
  have atEnd := resource.source.isBoundary_byteSize
  rw [nodes] at written placed
  cases placed with
  | comment _ _ _ atStop behind =>
    obtain ⟨q, more, laid, above, boundary⟩ := @layout_keeps_front parser.names _ _ _ _ behind atEnd 0
    rw [layout_comment, role] at written
    simp only at written
    rw [laid, written?] at written
    simp only [Part.written?] at written
    obtain ⟨⟨others, symbols⟩, _, eq⟩ := Option.map_eq_some_iff.mp written
    obtain ⟨code, _⟩ := Prod.mk.inj eq
    have front : resource.source.slice 0 comment.byteSize = comment := by
      rw [text]
      exact Text.slice_append_front comment run
    have cut := Text.slice_append_slice resource.source.isBoundary_zero atStop boundary (Nat.zero_le _) above
    rw [front] at cut
    rw [← code, Text.at, ← cut, List.append_assoc]
    exact List.prefix_append ..

namespace Parser

variable {parser : Parser Compiled} {stream : Bool} {depth : Nat} {resource : Resource} {duty : Duty}
  {head : MacroHead} {body : MacroBody}

/-- Where the words for directives are different and can be names of attributes, the parameters of a macro between
comments are declared first in its body if comments can have the word for parameters. Otherwise the comment that
should declare them is kept as it is, in the code of the macro. -/
theorem parameters_recognised {opened : Option OpenMacro} {span : Span} {rest : List Node} {p : Text}
    (different : Function.Injective parser.names.name) (words : ∀ kind, IsAttributeWord (parser.names.name kind))
    (registers : parser.Registers stream depth resource (.row opened (.comment span :: rest)) head body)
    (parameters : head.parameters = some p) :
    let var := parser.names.name .var
    let comment := MacroBody.declaringComment var p
    let macroSource := resource.extract head.name body.text
    ((∀ c ∈ var, CommentDirective.isNameChar c = true) →
      ∃ directive, parser.AsksFirst stream depth macroSource directive ∧ directive.kind = .var ∧
        directive.name = var ∧ directive.value = p ∧ directive.start = 4) ∧
    ((∃ c ∈ var, CommentDirective.isNameChar c = false) →
      commentRole parser.names body.text none ⟨0, comment.byteSize⟩ = .text ∧
      ∃ events template, parser.parseWithin stream depth macroSource = (events, .ok template) ∧
        comment <+: template.code) := by
  intro var comment macroSource
  have word := words .var
  refine ⟨fun letters => ?_, fun ⟨c, member, outside⟩ => ?_⟩
  · refine registers.asksFirst_of_run word parameters letters ?_
    rw [DirectiveNames.kindOf?, List.find?_eq_some_iff_append]
    refine ⟨decide_eq_true rfl, DirectiveKind.all.take 6, DirectiveKind.all.drop 7, rfl, fun kind member => ?_⟩
    rw [Bool.not_eq_true', decide_eq_false_iff_not]
    intro same
    rw [different same] at member
    exact absurd member (by decide)
  · obtain ⟨run, nodes, text, first⟩ := registers.declaring word parameters
    have role : commentRole parser.names body.text none ⟨0, comment.byteSize⟩ = .text := by
      rw [text]
      exact commentRole_declaring_otherwise word member outside run
    obtain ⟨events, template, parsed⟩ := registers.parsed
    exact ⟨role, events, template, parsed, @comment_kept _ _ _ _ macroSource _ _ _ text first role _ _ parsed⟩

/-- A word for parameters that comments can have, and parameters with a quotation mark. -/
theorem parameters_recognised_of_bind :
    let parser : Parser Unit := { Parser.echo with names := .ofSettings [("var.directive", "bind")] }
    let source : Text := "<!--macro='m(a, \"b\")'-->x<!--end='macro'-->"
    let resource : Resource := { name := "page", source }
    ∃ duty head body, parser.Registers false 2 resource duty head body ∧ head.parameters = some "a, \"b\"" ∧
      ∃ directive, parser.AsksFirst false 2 (resource.extract head.name body.text) directive ∧
        directive.kind = .var ∧ directive.name = ("bind" : Text) ∧ directive.value = ("a, \"b\"" : Text) := by
  intro parser source resource
  let opening : Span := ⟨0, 24⟩
  let closing : Span := ⟨25, 43⟩
  let opened : OpenMacro := ⟨opening, "macro", "m(a, \"b\")"⟩
  let head : MacroHead := ⟨"m", some "a, \"b\""⟩
  have nodes : source.nodes = [.comment opening, .comment closing] := by decide +kernel
  have opens : commentRole parser.names source none opening = .opensMacro opened := by decide +kernel
  have closes : commentRole parser.names source (some opened) closing = .closesMacro opened := by decide +kernel
  have registers : parser.Registers false 2 resource (.row (some opened) [.comment closing]) head
      (MacroBody.ofRun source ⟨opening.stop, closing.start⟩ opening.start (parser.names.name .var) head.parameters) :=
    registers_of_run ⟨24, 25⟩ (by rw [nodes]; exact .step (Walk.advance_of_opens opens) .done)
      (.run closes (by decide +kernel)) (by decide +kernel)
  have different : Function.Injective parser.names.name := by
    intro a b same
    revert same
    cases a <;> cases b <;> decide +kernel
  obtain ⟨recognised, _⟩ := parameters_recognised different (fun kind => by cases kind <;> decide +kernel) registers rfl
  obtain ⟨directive, asks, kind, name, value, _⟩ := recognised (List.all_eq_true.mp (by decide +kernel))
  exact ⟨_, head, _, registers, rfl, directive, asks, kind, name.trans (by decide +kernel), value⟩

/-- A word for parameters that attributes can have, but not comments: no parameters are declared. -/
theorem parameters_kept_as_comment :
    let names : DirectiveNames := .ofSettings [("var.directive", "data-var")]
    let parser : Parser Unit := { Parser.echo with names }
    let source : Text := "<!--macro='m(a)'-->x<!--end='macro'-->"
    let resource : Resource := { name := "page", source }
    Function.Injective names.name ∧ (∀ kind, IsAttributeWord (names.name kind)) ∧
      ∃ duty head body, parser.Registers false 2 resource duty head body ∧ head.parameters = some "a" ∧
        ∃ events template,
          parser.parseWithin false 2 (resource.extract head.name body.text) = (events, .ok template) ∧
          template.directives = 0 ∧
          ¬ ∃ directive, parser.AsksFirst false 2 (resource.extract head.name body.text) directive := by
  intro names parser source resource
  let opening : Span := ⟨0, 19⟩
  let closing : Span := ⟨20, 38⟩
  let opened : OpenMacro := ⟨opening, "macro", "m(a)"⟩
  let head : MacroHead := ⟨"m", some "a"⟩
  have nodes : source.nodes = [.comment opening, .comment closing] := by decide +kernel
  have opens : commentRole parser.names source none opening = .opensMacro opened := by decide +kernel
  have closes : commentRole parser.names source (some opened) closing = .closesMacro opened := by decide +kernel
  have registers : parser.Registers false 2 resource (.row (some opened) [.comment closing]) head
      (MacroBody.ofRun source ⟨opening.stop, closing.start⟩ opening.start (parser.names.name .var) head.parameters) :=
    registers_of_run ⟨19, 20⟩ (by rw [nodes]; exact .step (Walk.advance_of_opens opens) .done)
      (.run closes (by decide +kernel)) (by decide +kernel)
  let body : MacroBody := .ofRun source ⟨opening.stop, closing.start⟩ opening.start (parser.names.name .var) head.parameters
  have counted : (parser.parseWithin false 2 (resource.extract head.name body.text)).2.toOption.map
      ParsedTemplate.directives = some 0 := by decide +kernel
  have unasked : ((parser.refusingAll fun _ => ⟨[], none⟩).parseWithin false 2
      (resource.extract head.name body.text)).2.isOk = true := by decide +kernel
  have different : Function.Injective names.name := by
    intro a b same
    revert same
    cases a <;> cases b <;> decide +kernel
  obtain ⟨events, template, parsed⟩ := registers.parsed
  rw [parsed] at counted
  refine ⟨different, fun kind => by cases kind <;> decide +kernel, _, head, _, registers, rfl, events, template, parsed,
    Option.some.inj counted, fun ⟨directive, asks⟩ => ?_⟩
  obtain ⟨e, failed, _⟩ := asks fun _ => ⟨[], none⟩
  rw [failed] at unasked
  exact absurd unasked Bool.false_ne_true

end Parser

end MarkupTemplates
