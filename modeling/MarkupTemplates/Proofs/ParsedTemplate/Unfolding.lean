import MarkupTemplates.Proofs.ParsedTemplate.Arising
import MarkupTemplates.Proofs.ParsedTemplate.Directives
import MarkupTemplates.Proofs.ParsedTemplate.Inheritance

namespace MarkupTemplates

mutual

/-- How many macros a node declares: in the attributes of its tag or as a comment, and below it. -/
def Node.declarations (names : DirectiveNames) (source : Text) : Node → Nat
  | .comment span => if names.commentKind? (source.at span) = some .defineMacro then 1 else 0
  | .element tag _ children =>
    tag.attributes.countP (fun a => names.kindOf? a.name = some .defineMacro) +
      rowDeclarations names source children

/-- How many macros nodes in a row declare. -/
def rowDeclarations (names : DirectiveNames) (source : Text) : List Node → Nat
  | [] => 0
  | node :: rest => node.declarations names source + rowDeclarations names source rest

end

theorem WrittenTag.declarations_located (names : DirectiveNames) (tag : WrittenTag) (start : Nat) :
    (tag.located start).attributes.countP (fun a => names.kindOf? a.name = some .defineMacro) =
      tag.readings.countP fun reading => names.kindOf? reading.1 = some .defineMacro := by
  rw [located, readings]
  generalize start + 1 + Text.byteSize tag.name = first
  induction tag.attributes generalizing first with
  | nil => rfl
  | cons a rest ih => simp only [locatedInRow, List.map_cons, List.countP_cons, ih]; rfl

/-- The tree declares what the pieces declare that it is made of. -/
theorem Formed.declarations {names : DirectiveNames} {source : Text} {outer left : List Text} {start : Nat}
    {tokens : List Token} {nodes : List Node} (formed : Formed outer start tokens nodes left)
    (stands : Stands source start (spelling tokens)) :
    rowDeclarations names source nodes = (tokens.map (Token.declarations names)).sum := by
  induction formed with
  | done => rfl
  | @plain outer start text rest nodes left _ ih =>
    rw [List.map_cons, List.sum_cons, ← ih stands.right]
    exact (Nat.zero_add _).symm
  | @stray outer start name gap rest nodes left _ _ ih =>
    rw [List.map_cons, List.sum_cons, ← ih stands.right]
    exact (Nat.zero_add _).symm
  | @comment outer start text rest nodes left _ ih =>
    have here : source.at ⟨start, start + Text.byteSize text⟩ = text := stands.left.slice
    rw [List.map_cons, List.sum_cons, ← ih stands.right, rowDeclarations, Node.declarations, here]
    rfl
  | @whole outer start tag rest nodes left _ _ ih =>
    rw [List.map_cons, List.sum_cons, ← ih stands.right, rowDeclarations, Node.declarations,
      tag.declarations_located]
    rfl
  | @raw outer start tag content rest nodes left _ ih =>
    rw [List.map_cons, List.sum_cons, ← ih stands.right, rowDeclarations, Node.declarations,
      tag.declarations_located]
    rfl
  | @closed outer start tag inner children inside name gap rest nodes left _ _ _ _ _ ihInner ihRest =>
    rw [List.append_cons, spelling_append] at stands
    have opening : Stands source start (spelling (.startTag tag :: inner)) := by
      have first := stands.left
      rw [spelling_append] at first
      exact first.left
    have none : Token.declarations names (.endTag name gap) = 0 := rfl
    rw [rowDeclarations, Node.declarations, tag.declarations_located, ihInner opening.right, ihRest stands.right]
    simp only [List.map_append, List.map_cons, List.sum_append, List.sum_cons, none, Nat.zero_add]
    rfl
  | @unclosed outer start tag inner children inside _ _ ih =>
    rw [List.map_cons, List.sum_cons, ← ih stands.right, rowDeclarations, Node.declarations,
      tag.declarations_located]
    rfl

/-- Macros are counted alike in the tree of a source and in its pieces. -/
theorem declarations_nodes (names : DirectiveNames) (source : Text) :
    rowDeclarations names source source.nodes = source.declarations names := by
  obtain ⟨left, formed⟩ := formed_nodes source
  have whole : spelling (Scan.tokens source) = source := Scan.tokens_spells source
  exact formed.declarations ⟨[], [], by rw [whole, List.nil_append, List.append_nil], rfl⟩

variable {Compiled : Type}

namespace Walk

variable {job : Job Compiled} {parseBody : Resource → Parsed Compiled} {w : Walk Compiled}

theorem register_agreeing {head : MacroHead} {body : MacroBody} (span : Span)
    (agree : parseBody (job.resource.extract head.name body.text) =
      job.parseBody (job.resource.extract head.name body.text)) :
    w.register { job with parseBody } head body span = w.register job head body span := by
  unfold register
  simp only [agree]
  rfl

variable (agree : ∀ head body, HoldsMacro job.names job.resource.source head body →
  parseBody (job.resource.extract head.name body.text) = job.parseBody (job.resource.extract head.name body.text))

include agree

theorem comment_agreeing {opened : Option OpenMacro} {span : Span} {rest : List Node}
    (arises : (Duty.row opened (.comment span :: rest)).Arises job.names job.resource.source) :
    w.comment { job with parseBody } opened span = w.comment job opened span := by
  rw [comment_eq, comment_eq]
  cases role : commentRole job.names job.resource.source opened span with
  | closesMacro found =>
    have known := commentRole_ok job.names job.resource.source opened span
    rw [role] at known
    subst known
    have alike : w.runMacro { job with parseBody } found span = w.runMacro job found span := by
      unfold runMacro macroHead
      cases read : MacroHead.read found.directive found.value with
      | error fault => rfl
      | ok head =>
        have registered := register_agreeing (w := w) ⟨found.comment.stop, span.start⟩
          (agree head _ (arises.holdsMacro (.run role read)))
        show (w.register { job with parseBody } head _ _ >>= _) = _
        rw [registered]
        rfl
    simp only
    rw [alike]
  | _ => rfl

theorem elementMacro_agreeing {tag : Tag} {stop : Nat} {children rest : List Node} {declaration : Attribute}
    (arises : (Duty.row none (.element tag stop children :: rest)).Arises job.names job.resource.source)
    (declares : declarationOf? job.names tag = some declaration) :
    w.elementMacro { job with parseBody } tag stop declaration = w.elementMacro job tag stop declaration := by
  unfold elementMacro macroHead
  cases read : MacroHead.read declaration.name (declaration.value.getD []) with
  | error fault => rfl
  | ok head =>
    have registered := register_agreeing (w := w) ⟨tag.span.start, stop⟩
      (agree head _ (arises.holdsMacro (.element declares read)))
    show (w.register { job with parseBody } head _ _ >>= _) = _
    rw [registered]
    rfl

omit agree in
theorem statementAttributes_agreeing (tag : Tag) (statements : List (DirectiveKind × Attribute)) :
    statementAttributes { job with parseBody } tag statements w = statementAttributes job tag statements w := by
  induction statements generalizing w with
  | nil => rfl
  | cons statement statements ih =>
    rw [statementAttributes, statementAttributes]
    exact bind_congr fun _ => ih

/-- A walk depends on nothing but what is made of the bodies that it comes to. -/
theorem siblings_agreeing {opened : Option OpenMacro} {nodes : List Node}
    (arises : (Duty.row opened nodes).Arises job.names job.resource.source) :
    siblings { job with parseBody } opened w nodes = siblings job opened w nodes := by
  induction opened, nodes, arises using Duty.Arises.row_induction generalizing w with
  | nil opened arises => cases opened <;> rfl
  | comment opened span rest arises ih =>
    rw [siblings, siblings, node, node, comment_agreeing agree arises]
    cases commented : w.comment job opened span with
    | error failure => rfl
    | ok next =>
      obtain ⟨next, w1⟩ := next
      rw [← comment_opens commented] at ih
      exact ih
  | element opened tag stop children rest arises ihChildren ih =>
    have first : node { job with parseBody } opened w (.element tag stop children) =
        node job opened w (.element tag stop children) := by
      rw [node, node]
      cases opened with
      | some opened => rfl
      | none =>
        simp only [Option.isSome_none, Bool.false_eq_true, if_false]
        cases declared : declarationOf? job.names tag with
        | some declaration =>
          simp only [elementMacro_agreeing agree arises declared]
        | none =>
          simp only [statementAttributes_agreeing, ihChildren]
          rfl
    rw [siblings, siblings, first]
    cases own : node job opened w (.element tag stop children) with
    | error failure => rfl
    | ok next =>
      obtain ⟨next, w1⟩ := next
      obtain rfl := node_opens own
      exact ih

end Walk

namespace Parser

variable (parser : Parser Compiled) (stream : Bool)

/-- What is fixed while a source is parsed and the bodies of its macros are left to `parseBody`. -/
def jobOver (parseBody : Resource → Parsed Compiled) (resource : Resource) : Job Compiled where
  names := parser.names
  dialect := parser.dialect
  compiler := parser.compiler
  resource := resource
  stream := stream
  parseBody := parseBody

/-- Parses a source and leaves the bodies of its macros to `parseBody`. -/
def layer (parseBody : Resource → Parsed Compiled) (resource : Resource) : Parsed Compiled :=
  match Walk.siblings (parser.jobOver stream parseBody resource) none {} resource.source.nodes with
  | .error failure => (failure.events, .error failure.error)
  | .ok w =>
    (w.events ++ [.parsed resource.name w.directives w.macros.length],
      .ok { resource, stream, code := w.edits.apply resource.source
            symbols := w.symbols, macros := w.macros, directives := w.directives })

theorem parseWithin_eq_iterate (depth : Nat) :
    parser.parseWithin stream depth = (parser.layer stream)^[depth] (parser.parseWithin stream 0) := by
  induction depth with
  | zero => rfl
  | succ depth ih =>
    rw [Function.iterate_succ_apply', ← ih]
    rfl

variable {parser stream}

theorem layer_agreeing {one other : Resource → Parsed Compiled} {resource : Resource}
    (agree : ∀ head body, HoldsMacro parser.names resource.source head body →
      one (resource.extract head.name body.text) = other (resource.extract head.name body.text)) :
    parser.layer stream one resource = parser.layer stream other resource := by
  have walked : Walk.siblings (parser.jobOver stream one resource) none {} resource.source.nodes =
      Walk.siblings (parser.jobOver stream other resource) none {} resource.source.nodes :=
    @Walk.siblings_agreeing _ (parser.jobOver stream other resource) one {} agree _ _ Duty.Arises.roots
  rw [layer, walked]
  rfl

/-- Layers on layers come to the same, whatever is below them, once there are more of them than macros: each
body declares fewer macros than the source around it. -/
theorem iterate_layer_agreeing (word : IsAttributeWord (parser.names.name .var))
    (one other : Resource → Parsed Compiled) {n m : Nat} {resource : Resource}
    (deep : resource.source.declarations parser.names < n) (deep' : resource.source.declarations parser.names < m) :
    (parser.layer stream)^[n] one resource = (parser.layer stream)^[m] other resource := by
  induction n generalizing m resource with
  | zero => exact absurd deep (Nat.not_lt_zero _)
  | succ n ih =>
    obtain ⟨m, rfl⟩ : ∃ below, m = below + 1 := ⟨m - 1, by omega⟩
    rw [Function.iterate_succ_apply', Function.iterate_succ_apply']
    refine layer_agreeing fun head body held => ?_
    have fewer := held.declarations_lt word
    exact ih (Nat.lt_of_lt_of_le fewer (Nat.le_of_lt_succ deep))
      (Nat.lt_of_lt_of_le fewer (Nat.le_of_lt_succ deep'))

/-- With more layers than the source declares macros, all macros in macros are parsed. -/
theorem iterate_layer_eq_parse (word : IsAttributeWord (parser.names.name .var))
    (below : Resource → Parsed Compiled) {depth : Nat} {resource : Resource}
    (deep : resource.source.declarations parser.names < depth) :
    (parser.layer stream)^[depth] below resource = parser.parse stream resource := by
  rw [parse, parseWithin_eq_iterate]
  exact iterate_layer_agreeing word below _ deep (parser.declarations_lt_depthBound resource)

theorem parse_eq_layer (word : IsAttributeWord (parser.names.name .var)) (resource : Resource) :
    parser.parse stream resource = parser.layer stream (parser.parse stream) resource := by
  have deep : resource.source.declarations parser.names < resource.source.declarations parser.names + 1 :=
    Nat.lt_succ_self _
  rw [← iterate_layer_eq_parse word (parser.parse stream) deep, Function.iterate_succ_apply']
  exact layer_agreeing fun head body held => iterate_layer_eq_parse word _ (held.declarations_lt word)

end Parser

/-- Parsing macros in macros comes to an end. The tree of a body declares fewer macros than the tree of the
source that it was extracted from, so that a source is parsed as its bodies are, without any bound on how deep
they go; and no more layers are needed than there are macros, wherever the layers end. -/
theorem macros_nest_finitely (parser : Parser Compiled) (word : IsAttributeWord (parser.names.name .var)) :
    (∀ source head body, HoldsMacro parser.names source head body →
      rowDeclarations parser.names body.text body.text.nodes < rowDeclarations parser.names source source.nodes) ∧
    ∀ stream resource,
      parser.parse stream resource = parser.layer stream (parser.parse stream) resource ∧
      ∀ below depth, rowDeclarations parser.names resource.source resource.source.nodes < depth →
        (parser.layer stream)^[depth] below resource = parser.parse stream resource := by
  refine ⟨fun source head body held => ?_, fun stream resource => ⟨Parser.parse_eq_layer word resource,
    fun below depth deep => ?_⟩⟩
  · rw [declarations_nodes, declarations_nodes]
    exact held.declarations_lt word
  · rw [declarations_nodes] at deep
    exact Parser.iterate_layer_eq_parse word below deep

/-- A macro in a macro. The parameters look like a macro themselves, and take up more room where they are
declared in the body than in the source. -/
theorem macros_nest_finitely_in_list :
    let source : Text := "<ul macro='outer(a=\"<!-- macro=1 -->\" & b)'><!-- macro='inner' -->x<!-- end='macro' --></ul>"
    let resource : Resource := { name := "list", source }
    (∃ head body, HoldsMacro Parser.echo.names source head body ∧ source.length < body.text.length ∧
      rowDeclarations Parser.echo.names body.text body.text.nodes < 2) ∧
      ∀ below, (Parser.echo.layer false)^[3] below resource = Parser.echo.parse false resource := by
  intro source resource
  obtain ⟨fewer, layers⟩ := macros_nest_finitely Parser.echo DirectiveNames.isAttributeWord_var
  have two : rowDeclarations Parser.echo.names source source.nodes = 2 := by decide +kernel
  refine ⟨?_, fun below => (layers false resource).2 below 3 (Nat.lt_of_le_of_lt (Nat.le_of_eq two) (by decide))⟩
  have longer : (Parser.echo.parse false resource).2.toOption.map (fun template => template.macros.map fun entry =>
      decide (source.length < entry.2.template.resource.source.length)) = some [true] := by decide +kernel
  cases result : (Parser.echo.parse false resource).2 with
  | error e => exact absurd (result ▸ longer) nofun
  | ok template =>
    rw [result] at longer
    have macros : template.macros.map (fun entry =>
        decide (source.length < entry.2.template.resource.source.length)) = [true] := Option.some.inj longer
    cases entries : template.macros with
    | nil => simp [entries] at macros
    | cons entry others =>
      obtain ⟨name, found⟩ := entry
      have parsed : Parser.echo.parse false resource = ((Parser.echo.parse false resource).1, .ok template) :=
        Prod.ext rfl result
      obtain ⟨head, body, _, held, _, _, made, _⟩ :=
        Parser.comesFrom parsed name found (by rw [entries]; exact List.mem_cons_self)
      obtain ⟨_, _, _, _, own⟩ := Parser.parseWithin_ok made
      have text : found.template.resource.source = body.text := by rw [own]; rfl
      rw [entries, List.map_cons, text] at macros
      exact ⟨head, body, held, of_decide_eq_true (List.cons.inj macros).1, two ▸ fewer source head body held⟩

end MarkupTemplates
