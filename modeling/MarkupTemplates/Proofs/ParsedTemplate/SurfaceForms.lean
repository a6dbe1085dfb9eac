import MarkupTemplates.Proofs.Markup.ClosedElements
import MarkupTemplates.Proofs.ParsedTemplate.Abstraction
import MarkupTemplates.Proofs.ParsedTemplate.Counterparts
import MarkupTemplates.Proofs.ParsedTemplate.Unfolding

namespace MarkupTemplates

theorem Text.replace_eq_self {t : Text} {c : Char} (without : c ∉ t) (text : Text) : t.replace c text = t := by
  induction t with
  | nil => rfl
  | cons d t ih =>
    have other : d ≠ c := fun same => without (same ▸ List.mem_cons_self)
    have later := ih fun member => without (List.mem_cons_of_mem d member)
    rw [replace, List.flatMap_cons, if_neg other]
    exact congrArg (d :: ·) later

namespace MacroBody

theorem attributeQuoted_eq_self {t : Text} (plain : '&' ∉ t) (unquoted : '"' ∉ t) : attributeQuoted t = t := by
  rw [attributeQuoted, Text.replace_eq_self plain, Text.replace_eq_self unquoted]

theorem commentQuoted_eq_of_not_mem {t : Text} (unquoted : '"' ∉ t) : commentQuoted t = '"' :: t ++ ['"'] := by
  have none : t.contains '"' = false := by simpa using unquoted
  rw [commentQuoted, none]
  rfl

end MacroBody

section

variable {tag : WrittenTag} {word value rest : Text}

/-- The tag with a statement in front of its attributes. -/
def WrittenTag.stated (tag : WrittenTag) (word value : Text) : WrittenTag :=
  { tag with attributes := .declaring word value :: tag.attributes }

theorem WrittenTag.text_stated : (tag.stated word value).text =
    '<' :: tag.name ++ (WrittenAttribute.declaring word value).text ++
      (tag.attributes.flatMap WrittenAttribute.text ++ tag.ending) := by
  rw [WrittenTag.text_eq]
  simp only [stated, List.flatMap_cons, List.append_assoc, List.cons_append]
  rfl

theorem WrittenTag.Legible.stated (legible : tag.Legible) (named : IsAttributeWord word) :
    (tag.stated word value).Legible :=
  legible.inserted (WrittenAttribute.legible_declaring named.1 named.2) rfl (List.nil_subset _) (List.suffix_refl _)

/-- An attribute is six bytes shorter than the comment that says the same. -/
theorem byteSize_declaringComment (plain : '&' ∉ value) (unquoted : '"' ∉ value) :
    (MacroBody.declaringComment word value).byteSize = (WrittenAttribute.declaring word value).text.byteSize + 6 := by
  rw [MacroBody.declaringComment, MacroBody.commentQuoted_eq_of_not_mem unquoted, WrittenAttribute.declaring,
    MacroBody.attributeQuoted_eq_self plain unquoted]
  simp only [WrittenAttribute.text, Assignment.text, WrittenValue.text, Text.byteSize_append, Text.byteSize_cons,
    Text.byteSize_nil, List.nil_append, List.cons_append]
  have opening : Text.byteSize ("<!--" : Text) = 4 := by decide
  have closing : Text.byteSize ("-->" : Text) = 3 := by decide
  have one : (' ').utf8Size = 1 := by decide
  omega

theorem byteSize_text_stated (plain : '&' ∉ value) (unquoted : '"' ∉ value) : (tag.stated word value).text.byteSize + 6 =
    (MacroBody.declaringComment word value).byteSize + tag.text.byteSize := by
  rw [tag.text_eq, WrittenTag.text_stated, byteSize_declaringComment plain unquoted]
  simp only [Text.byteSize_append]
  omega

/-- A statement in the tag of an element, or in a comment in front of it: what comes behind the statement has the same
nodes, six bytes later. -/
theorem nodes_of_forms (element : Text.IsElement tag ('<' :: tag.name ++ rest)) (named : IsAttributeWord word)
    (plain : '&' ∉ value) (unquoted : '"' ∉ value) (unended : ¬ commentEnd <:+: value) {more : Text} (inert : more.Inert)
    {nodes : List Node} {left : List Text} :
    let source : Text := '<' :: tag.name ++ rest
    let one : Text := '<' :: tag.name ++ (WrittenAttribute.declaring word value).text ++ rest
    let comment : Text := MacroBody.declaringComment word value
    Formed [] (comment.byteSize + source.byteSize) (Scan.tokens more) nodes left → ∃ children,
      one.nodes = [.element ((tag.stated word value).located 0) one.byteSize children] ∧
      (comment ++ (source ++ more)).nodes = .comment ⟨0, comment.byteSize⟩ ::
        .element (tag.located comment.byteSize) (comment.byteSize + source.byteSize)
          (children.map (Node.relocated (· + 6))) :: nodes := by
  intro source one comment behind
  obtain ⟨first, tail, init, last, read, tagged, split, ended, formed⟩ := element.pieces
  have legible : tag.Legible := (Scan.tokens_legible source first (by rw [read]; exact List.mem_cons_self)).tagged tagged
  have alike : Alike tag (tag.stated word value) := ⟨rfl, rfl⟩
  have spelled : source = spelling (first :: tail) := by rw [← read, spelling, Scan.tokens_spells]
  have size : (tag.stated word value).text.byteSize + 6 = comment.byteSize + tag.text.byteSize :=
    byteSize_text_stated plain unquoted
  obtain ⟨children, here, there⟩ := formed (tag.stated word value) comment.byteSize 6 alike size
  have retold : one = spelling (first.retagged (tag.stated word value) :: tail) := by
    have inFront : source = '<' :: tag.name ++ (tag.attributes.flatMap WrittenAttribute.text ++ tag.ending ++
        (first.content ++ spelling tail)) := by
      rw [spelled, spelling_cons, Token.text_of_tag tagged, tag.text_eq]
      simp only [List.append_assoc]
    have behindName := List.append_cancel_left inFront
    rw [spelling_cons, Token.text_retagged tagged, WrittenTag.text_stated]
    simp only [one, behindName, List.append_assoc]
  refine ⟨children, ?_, ?_⟩
  · have again := Scan.tokens_retagged read tagged alike (legible.stated named)
    rw [← retold] at again
    rw [Text.nodes, again, here.formed.finish, ← retold, Nat.zero_add]
  · have tokens : Scan.tokens (comment ++ (source ++ more)) =
        .comment comment :: ((first :: tail) ++ Scan.tokens more) := by
      rw [MacroBody.tokens_declaringComment named.2 unended, Scan.tokens_extend inert ended (read.trans split), read]
    rw [← spelled] at there
    have whole : Formed [] 0 (.comment comment :: ((first :: tail) ++ Scan.tokens more)) _ left :=
      .comment (by
        rw [Nat.zero_add]
        exact there.followed (by rw [← spelled]; exact behind))
    rw [Text.nodes, tokens, whole.finish, Nat.zero_add]

end

/-- The tag of an element that is a whole source begins with a statement. In the other source the element has come to
stand at `start` without the statement, and what comes behind the statement has moved with it. -/
structure Restated (one two : Text) (shift start : Nat) (name : Text) (stop : Nat) (own : Attribute)
    (rest : List Attribute) (children : List Node) : Prop where
  recurs : one.Recurs two shift own.span.stop one.byteSize
  atTag : one.IsBoundary stop
  attributes : AttributesPlaced one stop own.span.stop rest
  content : Placed one stop one.byteSize children
  atBack : one.IsBoundary own.span.stop
  named : two.at ⟨start, own.span.stop + shift⟩ = one.at ⟨0, own.reach.start⟩
  atStart : two.IsBoundary start
  forward : start ≤ own.span.stop + shift

section

variable {dialect : Dialect} {source : Text}

theorem written?_kept_self (symbols : SymbolTable) (n : Nat) (rest : List Part) :
    written? dialect source symbols (.kept ⟨n, n⟩ :: rest) = written? dialect source symbols rest := by
  simp only [written?, Part.written?, Text.at, Text.slice_self]
  cases written? dialect source symbols rest <;> rfl

theorem written?_kept_kept {lo mid hi : Nat} (atLo : source.IsBoundary lo) (atMid : source.IsBoundary mid)
    (atHi : source.IsBoundary hi) (first : lo ≤ mid) (second : mid ≤ hi) (symbols : SymbolTable) (rest : List Part) :
    written? dialect source symbols (.kept ⟨lo, mid⟩ :: .kept ⟨mid, hi⟩ :: rest) =
      written? dialect source symbols (.kept ⟨lo, hi⟩ :: rest) := by
  have whole : source.at ⟨lo, hi⟩ = source.at ⟨lo, mid⟩ ++ source.at ⟨mid, hi⟩ :=
    (Text.slice_append_slice atLo atMid atHi first second).symm
  simp only [written?, Part.written?, whole]
  cases written? dialect source symbols rest with
  | none => rfl
  | some read => simp only [Option.map_some, List.append_assoc]

theorem WrittenAlike.skip {other : Text} {parts parts' : List Part} {n : Nat}
    (alike : WrittenAlike dialect source other parts parts') :
    WrittenAlike dialect source other parts (.kept ⟨n, n⟩ :: parts') := by
  intro symbols
  rw [written?_kept_self]
  exact alike symbols

/-- A tag can be divided in front of its attributes. -/
theorem written?_tagLayout {lo mid hi : Nat} {attributes : List Attribute}
    (placed : AttributesPlaced source hi mid attributes) (atLo : source.IsBoundary lo) (atMid : source.IsBoundary mid)
    (atHi : source.IsBoundary hi) (first : lo ≤ mid) (symbols : SymbolTable) :
    written? dialect source symbols (.kept ⟨lo, mid⟩ :: tagLayout mid hi attributes) =
      written? dialect source symbols (tagLayout lo hi attributes) := by
  cases placed with
  | nil less => exact written?_kept_kept atLo atMid atHi first less symbols []
  | cons above atStart forward atStop within =>
    rw [tagLayout, tagLayout]
    exact written?_kept_kept atLo atMid atStart first (Nat.le_sub_one_of_lt above) symbols _

end

theorem Walk.declarationOf?_eq_none {names : DirectiveNames} {name : Text} {attributes : List Attribute} {span : Span}
    (undeclared : ∀ a ∈ attributes, names.kindOf? a.name ≠ some .defineMacro) :
    declarationOf? names ⟨name, attributes, span⟩ = none := by
  rw [declarationOf?, List.find?_eq_none]
  simpa using undeclared

theorem Walk.statementsOf_cons {names : DirectiveNames} {name : Text} {own : Attribute} {rest : List Attribute} {span : Span}
    {kind : DirectiveKind} (states : names.kindOf? own.name = some kind) (statement : kind.isStatement = true) :
    statementsOf names ⟨name, own :: rest, span⟩ = (kind, own) :: statementsOf names ⟨name, rest, span⟩ := by
  rw [statementsOf, List.filterMap_cons]
  simp only [states, statement, if_true]
  rfl

namespace Walk

variable {Compiled : Type} {job : Job Compiled} {w : Walk Compiled}

theorem siblings_element {tag : Tag} (undeclared : declarationOf? job.names tag = none) (stop : Nat)
    (children rest : List Node) : siblings job none w (.element tag stop children :: rest) =
      statementAttributes job tag (statementsOf job.names tag) w >>= fun w => siblings job none w children >>= fun w =>
        siblings job none ((endings job tag).foldl (fun w code => w.place stop 0 code) w) rest := by
  rw [siblings, node, undeclared]
  simp only [Option.isSome_none, Bool.false_eq_true, if_false]
  cases statementAttributes job tag (statementsOf job.names tag) w with
  | error e => rfl
  | ok w =>
    show (siblings job none w children >>= _) >>= _ = siblings job none w children >>= _
    cases siblings job none w children with
    | error e => rfl
    | ok w => rfl

theorem siblings_statement {span : Span} {directive : Directive}
    (role : commentRole job.names job.resource.source none span = .statement directive) (rest : List Node) :
    siblings job none w (.comment span :: rest) = w.statement job directive >>= fun made =>
      siblings job none ((made.2.place span.start span.length made.1).remove span) rest := by
  rw [siblings, node, comment_eq, role]
  simp only
  cases w.statement job directive with
  | error e => rfl
  | ok made => rfl

end Walk

namespace Restated

variable {one two : Text} {shift start : Nat} {name : Text} {stop : Nat} {own : Attribute} {rest : List Attribute}
  {children nodes : List Node} {names : DirectiveNames} {kind : DirectiveKind} {directive : Directive}

/-- What the attribute and the comment say, and that no attribute declares a macro. -/
structure StatedTwice (names : DirectiveNames) (kind : DirectiveKind) (own : Attribute) (rest : List Attribute)
    (directive : Directive) : Prop where
  states : names.kindOf? own.name = some kind
  isStatement : kind.isStatement = true
  undeclared : ∀ a ∈ own :: rest, names.kindOf? a.name ≠ some .defineMacro
  sameKind : directive.kind = kind
  sameName : directive.name = own.name
  sameValue : directive.value = (own.statement kind).value

theorem StatedTwice.undeclared' (twice : StatedTwice names kind own rest directive) (move : Nat → Nat) :
    ∀ a ∈ rest.map (Attribute.relocated move), names.kindOf? a.name ≠ some .defineMacro := by
  intro a member
  obtain ⟨found, inside, rfl⟩ := List.mem_map.mp member
  exact twice.undeclared found (List.mem_cons_of_mem own inside)

/-- The sources come to the same documents, but for lengths. -/
theorem writtenAlike {dialect : Dialect} (restated : Restated one two shift start name stop own rest children)
    (placeless : dialect.Placeless) (twice : StatedTwice names kind own rest directive)
    (role : commentRole names two none ⟨0, start⟩ = .statement directive)
    (last : WrittenAlike dialect one two [.closing own.name, .kept ⟨one.byteSize, one.byteSize⟩]
      (layout names two (one.byteSize + shift) two.byteSize none nodes)) :
    WrittenAlike dialect one two
      (layout names one 0 one.byteSize none [.element ⟨name, own :: rest, ⟨0, stop⟩⟩ one.byteSize children])
      (layout names two 0 two.byteSize none (.comment ⟨0, start⟩ ::
        .element ⟨name, rest.map (Attribute.relocated (· + shift)), ⟨start, stop + shift⟩⟩ (one.byteSize + shift)
          (children.map (Node.relocated (· + shift))) :: nodes)) := by
  let later : Tag := ⟨name, rest, ⟨0, stop⟩⟩
  have stated := @Walk.statementsOf_cons names name own rest ⟨0, stop⟩ kind twice.states twice.isStatement
  have others : Walk.statementsOf names ⟨name, rest.map (Attribute.relocated (· + shift)), ⟨start, stop + shift⟩⟩ =
      (Walk.statementsOf names later).map fun statement => (statement.1, statement.2.relocated (· + shift)) :=
    Walk.statementsOf_relocated names (· + shift) later
  have placed := restated.attributes.sublist (statementsOf_sublist names later)
  have inTag := restated.attributes.le
  have ahead := restated.content.le
  have opening : WrittenAlike dialect one two
      (tagLayout 0 stop (own :: (Walk.statementsOf names later).map Prod.snd))
      (tagLayout start (stop + shift) (((Walk.statementsOf names later).map Prod.snd).map
        (Attribute.relocated (· + shift)))) := by
    intro symbols
    rw [← written?_tagLayout (placed.relocated restated.recurs (Nat.le_refl _) ahead) restated.atStart
      (restated.recurs.boundary _ restated.atBack (Nat.le_refl _) (by omega))
      (restated.recurs.boundary _ restated.atTag inTag ahead) restated.forward]
    exact WrittenAlike.cons (.kept restated.named) (.tagLayout restated.recurs placed (Nat.le_refl _) restated.atBack
      restated.atTag ahead) symbols
  have inner := WrittenAlike.layout placeless names restated.recurs restated.content inTag restated.atTag (Nat.le_refl _)
    one.isBoundary_byteSize (Nat.le_refl _) none
  have empty : two.at ⟨0, 0⟩ = one.at ⟨0, 0⟩ := (Text.slice_self two 0).trans (Text.slice_self one 0).symm
  rw [layout_comment, role]
  simp only [layout, Node.layout, Walk.declarationOf?_eq_none twice.undeclared,
    Walk.declarationOf?_eq_none (twice.undeclared' (· + shift)), stated, others, List.map_cons, List.reverse_cons,
    List.cons_append, List.append_assoc, List.nil_append]
  rw [List.map_map] at opening
  refine .cons (.kept empty) (.cons (.statement placeless _ _ twice.sameKind twice.sameName twice.sameValue) (.skip ?_))
  refine .append (.statements placeless _ _) (.append ?_ (.append inner (.append (.closings _ _) last)))
  rw [List.map_map]
  exact opening

/-- The sources are walked through in the same way. -/
theorem walked {Compiled : Type} {job : Job Compiled}
    (restated : Restated job.resource.source two shift start name stop own rest children)
    (placeless : job.dialect.Placeless) (twice : StatedTwice job.names kind own rest directive)
    (role : commentRole job.names two none ⟨0, start⟩ = .statement directive)
    (last : ∀ w w' : Walk Compiled, w.Level w' →
      Agree Walk.Level (.ok w : Except ParseFailure (Walk Compiled)) (Walk.siblings (job.over two) none w' nodes)) :
    Agree Walk.Level
      (Walk.siblings job none {} [.element ⟨name, own :: rest, ⟨0, stop⟩⟩ job.resource.source.byteSize children])
      (Walk.siblings (job.over two) none {} (.comment ⟨0, start⟩ ::
        .element ⟨name, rest.map (Attribute.relocated (· + shift)), ⟨start, stop + shift⟩⟩
          (job.resource.source.byteSize + shift) (children.map (Node.relocated (· + shift))) :: nodes)) := by
  let later : Tag := ⟨name, rest, ⟨0, stop⟩⟩
  have undeclared' : Walk.declarationOf? (job.over two).names
      ⟨name, rest.map (Attribute.relocated (· + shift)), ⟨start, stop + shift⟩⟩ = none :=
    Walk.declarationOf?_eq_none (twice.undeclared' (· + shift))
  have others : Walk.statementsOf (job.over two).names ⟨name, rest.map (Attribute.relocated (· + shift)), ⟨start, stop + shift⟩⟩ =
      (Walk.statementsOf job.names later).map fun statement => (statement.1, statement.2.relocated (· + shift)) :=
    Walk.statementsOf_relocated job.names (· + shift) later
  have inTag := restated.attributes.le
  rw [Walk.siblings_element (Walk.declarationOf?_eq_none twice.undeclared), Walk.statementsOf_cons twice.states twice.isStatement,
    Walk.statementAttributes, Walk.statementAttribute, bind_assoc, bind_assoc,
    @Walk.siblings_statement _ (job.over two) _ _ _ role]
  have first : Agree (fun a b => a.2.Level b.2) (Walk.statement job {} (own.statement kind))
      (Walk.statement (job.over two) {} directive) :=
    Walk.Level.statement placeless ⟨rfl, rfl⟩ twice.sameKind twice.sameName twice.sameValue
  refine first.bind fun a b level => ?_
  obtain ⟨code, w1⟩ := a
  rw [pure_bind, @Walk.siblings_element _ (job.over two) _ _ undeclared', others]
  refine ((level.edited _ _).statementAttributes placeless _ _ _ _).bind fun w2 w2' level => ?_
  refine (level.siblings placeless restated.recurs restated.content inTag (Nat.le_refl _) none
    fun _ open_macro => by cases open_macro).bind fun w3 w3' level => ?_
  exact last _ _ (level.closed _ _ _ _)

end Restated

/-- Templates that differ in nothing but where their sources have what, and in how their macros are laid out. -/
def ParsedTemplate.SameButPlaces {Compiled : Type} (one other : ParsedTemplate Compiled) : Prop :=
  SameButLengths one.code other.code ∧ one.symbols = other.symbols ∧
    Dictionary.keys one.macros = Dictionary.keys other.macros

/-- Walks that agree make templates that know the same names. -/
theorem Parser.layer_agree {Compiled : Type} {parser : Parser Compiled} {stream : Bool}
    {parseBody : Resource → Parsed Compiled} {one other : Resource}
    (both : Agree Walk.Level (Walk.siblings (parser.jobOver stream parseBody one) none {} one.source.nodes)
      (Walk.siblings (parser.jobOver stream parseBody other) none {} other.source.nodes)) :
    Agree (fun template template' => template.symbols = template'.symbols ∧
        Dictionary.keys template.macros = Dictionary.keys template'.macros)
      (parser.layer stream parseBody one).2 (parser.layer stream parseBody other).2 := by
  unfold Parser.layer
  generalize Walk.siblings (parser.jobOver stream parseBody one) none {} one.source.nodes = walk at both ⊢
  generalize Walk.siblings (parser.jobOver stream parseBody other) none {} other.source.nodes = walk' at both ⊢
  obtain ⟨_, _, rfl, rfl⟩ | ⟨w, w', rfl, rfl, level⟩ := both.results
  · trivial
  · exact ⟨level.symbols, level.macros⟩

/-- If one of the sources can be parsed, so can the other. -/
theorem Restated.parsed {Compiled : Type} {parser : Parser Compiled} (word : IsAttributeWord (parser.names.name .var))
    {resource : Resource} {two : Text} {shift start : Nat} {name : Text} {stop : Nat} {own : Attribute}
    {rest : List Attribute} {children nodes : List Node} {kind : DirectiveKind} {directive : Directive}
    (restated : Restated resource.source two shift start name stop own rest children)
    (placeless : parser.dialect.Placeless) (twice : StatedTwice parser.names kind own rest directive)
    (role : commentRole parser.names two none ⟨0, start⟩ = .statement directive)
    (element : resource.source.nodes = [.element ⟨name, own :: rest, ⟨0, stop⟩⟩ resource.source.byteSize children])
    (comment : two.nodes = .comment ⟨0, start⟩ ::
      .element ⟨name, rest.map (Attribute.relocated (· + shift)), ⟨start, stop + shift⟩⟩ (resource.source.byteSize + shift)
        (children.map (Node.relocated (· + shift))) :: nodes)
    (written : WrittenAlike parser.dialect resource.source two
      [.closing own.name, .kept ⟨resource.source.byteSize, resource.source.byteSize⟩]
      (layout parser.names two (resource.source.byteSize + shift) two.byteSize none nodes))
    (walked : ∀ (job : Job Compiled) (w w' : Walk Compiled), job.names = parser.names → job.resource.source = two →
      w.Level w' → Agree Walk.Level (.ok w : Except ParseFailure (Walk Compiled)) (Walk.siblings job none w' nodes))
    (stream : Bool) :
    Agree ParsedTemplate.SameButPlaces (parser.parse stream resource).2
      (parser.parse stream { resource with source := two }).2 := by
  let job := parser.jobOver stream (parser.parse stream) resource
  let job' := parser.jobOver stream (parser.parse stream) { resource with source := two }
  have both : Agree Walk.Level (Walk.siblings job none {} resource.source.nodes) (Walk.siblings job' none {} two.nodes) := by
    rw [element, comment]
    exact @Restated.walked _ _ _ _ _ _ _ _ _ _ _ Compiled job restated placeless twice role
      fun w w' level => walked job' w w' rfl rfl level
  have alike := restated.writtenAlike placeless twice role written
  rw [← element, ← comment] at alike
  have known := Parser.layer_agree both
  rw [← Parser.parse_eq_layer word, ← Parser.parse_eq_layer word] at known
  refine known.imp fun template template' one other names => ?_
  have same := alike {}
  rw [parser.parseWithin_written (Prod.ext rfl one), parser.parseWithin_written (Prod.ext rfl other)] at same
  cases same with
  | some related => exact ⟨related.1, names⟩

section

variable {tag : WrittenTag} {word value rest : Text}

/-- An element that begins with a statement, and the same element behind a comment. -/
theorem restated_of_nodes {children : List Node} (comment more : Text) :
    let own := WrittenAttribute.declaring word value
    let one : Text := '<' :: tag.name ++ own.text ++ rest
    let place := 0 + 1 + Text.byteSize tag.name
    one.nodes = [.element ((tag.stated word value).located 0) one.byteSize children] →
    comment.byteSize = own.text.byteSize + 6 →
    Restated one (comment ++ (('<' :: tag.name ++ rest) ++ more)) 6 comment.byteSize tag.name
      (0 + (tag.stated word value).text.byteSize) (own.located place)
      (locatedInRow (place + own.text.byteSize) tag.attributes) children := by
  intro own one place nodes size
  have bracket : ('<').utf8Size = 1 := by decide
  have name : Text.byteSize ('<' :: tag.name) = place := by
    rw [Text.byteSize_cons, bracket]
  have front : Text.byteSize ('<' :: tag.name ++ own.text) = place + own.text.byteSize := by rw [Text.byteSize_append, name]
  have whole : one.byteSize = place + own.text.byteSize + rest.byteSize := by rw [Text.byteSize_append, front]
  have placed := placed_nodes one
  rw [nodes] at placed
  cases placed with
  | element _ _ attributes atTag content _ _ =>
  cases attributes with
  | cons _ _ _ atBack others =>
  have moved : Text.byteSize (comment ++ '<' :: tag.name) = Text.byteSize ('<' :: tag.name ++ own.text) + 6 := by
    simp only [Text.byteSize_append, size]
    omega
  have again : comment ++ (('<' :: tag.name ++ rest) ++ more) = comment ++ ('<' :: tag.name) ++ rest ++ more := by
    simp only [List.append_assoc]
  refine ⟨?_, atTag, others, content, atBack, ?_, ⟨comment, _, rfl, rfl⟩, ?_⟩
  · have common := @Text.recurs_of_append _ _ rest 6 moved [] more
    rw [← again, front, ← whole, List.append_nil] at common
    exact common
  · have before : (own.located place).reach.start = place := Nat.add_sub_cancel place 1
    have behind : (own.located place).span.stop + 6 = comment.byteSize + Text.byteSize ('<' :: tag.name) := by
      rw [size, name]
      show place + own.text.byteSize + 6 = _
      omega
    have here := Text.slice_append_front ('<' :: tag.name) (own.text ++ rest)
    have there := Text.slice_append comment ('<' :: tag.name) (rest ++ more)
    rw [before, behind, ← name]
    rw [← List.append_assoc] at here
    rw [← List.append_assoc, ← again] at there
    exact there.trans here.symm
  · have behind : (own.located place).span.stop = place + own.text.byteSize := rfl
    omega

theorem Restated.statedTwice {names : DirectiveNames} {kind : DirectiveKind} {directive : Directive} {start : Nat}
    (states : names.kindOf? word = some kind) (statement : kind.isStatement = true)
    (undeclared : ∀ a ∈ tag.attributes, names.kindOf? a.name ≠ some .defineMacro) (sameKind : directive.kind = kind)
    (sameName : directive.name = word) (sameValue : directive.value = value.trim) (place : Nat) :
    StatedTwice names kind ((WrittenAttribute.declaring word value).located place) (locatedInRow start tag.attributes)
      directive where
  states := states
  isStatement := statement
  undeclared a member := by
    rcases List.mem_cons.mp member with rfl | member
    · intro declares
      obtain rfl := Option.some.inj (states.symm.trans declares)
      cases statement
    · obtain ⟨before, written, after, split, rfl⟩ := mem_locatedInRow member
      exact undeclared written (split ▸ List.mem_append_right _ List.mem_cons_self)
  sameKind := sameKind
  sameName := sameName
  sameValue := sameValue.trans (congrArg Text.trim (MacroBody.resolved_attributeQuoted value).symm)

/-- A statement that an element can have as the first attribute of its tag or in a comment in front of it. -/
structure Parser.TwoForms {Compiled : Type} (parser : Parser Compiled) (tag : WrittenTag) (kind : DirectiveKind)
    (word value rest : Text) : Prop where
  element : Text.IsElement tag ('<' :: tag.name ++ rest)
  undeclared : ∀ a ∈ tag.attributes, parser.names.kindOf? a.name ≠ some .defineMacro
  states : parser.names.kindOf? word = some kind
  statement : kind.isStatement = true
  named : IsAttributeWord word
  letters : ∀ c ∈ word, CommentDirective.isNameChar c = true
  plain : '&' ∉ value
  unquoted : '"' ∉ value
  unended : ¬ commentEnd <:+: value

/-- The forms agree if what stands behind the element leaves the rest as it is and comes to what closes the statement of an
attribute. -/
theorem Parser.TwoForms.agree_of_closed {Compiled : Type} {parser : Parser Compiled} {stream : Bool} {resource : Resource}
    {kind : DirectiveKind} (forms : parser.TwoForms tag kind word value rest)
    (var : IsAttributeWord (parser.names.name .var)) (placeless : parser.dialect.Placeless) {more : Text}
    (inert : more.Inert) {nodes : List Node} {left : List Text} :
    let own := WrittenAttribute.declaring word value
    let comment := MacroBody.declaringComment word value
    let one : Text := '<' :: tag.name ++ own.text ++ rest
    let two : Text := comment ++ (('<' :: tag.name ++ rest) ++ more)
    let start := comment.byteSize + Text.byteSize ('<' :: tag.name ++ rest)
    Formed [] start (Scan.tokens more) nodes left →
    WrittenAlike parser.dialect one two [.closing word, .kept ⟨one.byteSize, one.byteSize⟩]
      (layout parser.names two start two.byteSize none nodes) →
    (∀ (job : Job Compiled) (w w' : Walk Compiled), job.names = parser.names → job.resource.source = two → w.Level w' →
      Agree Walk.Level (.ok w : Except ParseFailure (Walk Compiled)) (Walk.siblings job none w' nodes)) →
    Agree ParsedTemplate.SameButPlaces (parser.parse stream { resource with source := one }).2
      (parser.parse stream { resource with source := two }).2 := by
  intro own comment one two start behind written walked
  obtain ⟨children, here, there⟩ :=
    nodes_of_forms forms.element forms.named forms.plain forms.unquoted forms.unended inert behind
  have size : comment.byteSize = own.text.byteSize + 6 := byteSize_declaringComment forms.plain forms.unquoted
  have restated := restated_of_nodes comment more here size
  obtain ⟨directive, role, sameKind, sameName, sameValue, _⟩ := MacroBody.commentRole_declaringComment forms.named.1
    forms.letters forms.states forms.statement [] value ('<' :: tag.name ++ rest ++ more)
  have twice := @Restated.statedTwice tag word value parser.names kind directive
    (0 + 1 + Text.byteSize tag.name + own.text.byteSize) forms.states forms.statement forms.undeclared sameKind sameName
    sameValue (0 + 1 + Text.byteSize tag.name)
  have stop : one.byteSize + 6 = start := by
    simp only [one, start, Text.byteSize_append, size]
    omega
  rw [List.nil_append, Text.byteSize_nil, Nat.zero_add] at role
  rw [← stop] at written
  refine @Restated.parsed Compiled parser var { resource with source := one } two 6 comment.byteSize tag.name _ _ _ children
    nodes kind directive restated placeless twice role here ?_ written walked stream
  have attributes := @locatedInRow_relocated (· + 6) (0 + 1 + Text.byteSize tag.name + own.text.byteSize)
    (comment.byteSize + 1 + Text.byteSize tag.name) tag.attributes fun n _ => by
      simp only [size]
      omega
  have tagStop : 0 + (tag.stated word value).text.byteSize + 6 = comment.byteSize + tag.text.byteSize := by
    rw [Nat.zero_add]
    exact byteSize_text_stated forms.plain forms.unquoted
  rw [there, attributes, tagStop]
  show _ = _ :: Node.element _ (one.byteSize + 6) _ :: _
  rw [stop]
  rfl

end

/-- The words by default are ones that attributes can have. -/
theorem DirectiveKind.isAttributeWord_defaultName (kind : DirectiveKind) : IsAttributeWord kind.defaultName := by
  cases kind <;> decide

/-- The words by default are ones that comments can have. -/
theorem DirectiveKind.isNameChar_defaultName (kind : DirectiveKind) :
    ∀ c ∈ kind.defaultName, CommentDirective.isNameChar c = true :=
  List.all_eq_true.mp (by cases kind <;> decide)

theorem Text.inert_nil : Text.Inert [] := fun content _ _ eq => by
  cases content with
  | nil => cases eq
  | cons d content => cases eq

/-- A comment of a word and a value that begins with a letter closes no value and leaves none open. -/
theorem MacroBody.inert_declaringComment {word value : Text} (unmarked : '"' ∉ word) (unquoted : '"' ∉ value)
    (single : '\'' ∉ declaringComment word value) {c : Char} {letters : Text} (first : value = c :: letters)
    (letter : c.isAlpha = true) : (declaringComment word value).Inert := by
  rintro content mark rest eq (rfl | rfl) without
  · have front : '"' ∉ ("<!--" : Text) ++ word ++ ['='] := by
      simp only [List.mem_append, not_or]
      exact ⟨⟨by decide, unmarked⟩, by decide⟩
    have spelled : declaringComment word value = ("<!--" : Text) ++ word ++ ['='] ++ '"' :: (value ++ '"' :: ("-->" : Text)) := by
      rw [declaringComment, commentQuoted_eq_of_not_mem unquoted]
      simp only [List.append_assoc, List.cons_append, List.nil_append]
    rw [spelled] at eq
    obtain ⟨between, rfl, behind⟩ := split_behind front eq
    cases between with
    | cons d between =>
      obtain ⟨rfl, _⟩ := List.cons.inj behind
      exact absurd (List.mem_append_right _ List.mem_cons_self) without
    | nil =>
      obtain ⟨_, rfl⟩ := List.cons.inj behind
      exact ⟨c, _, by rw [first, List.cons_append], letter⟩
  · exact absurd (eq ▸ List.mem_append_right _ List.mem_cons_self) single

namespace WrittenAlike

variable {dialect : Dialect} {source other : Text} {word : Text} {n m : Nat}

/-- Where there is nothing to close, nothing comes behind an element. -/
theorem closed_by_nothing (silent : dialect.ending word = []) :
    WrittenAlike dialect source other [.closing word, .kept ⟨n, n⟩] [.kept ⟨m, m⟩] := by
  intro symbols
  have empty (source : Text) (n : Nat) : source.at ⟨n, n⟩ = [] := Text.slice_self source n
  simp only [written?, Part.written?, silent, if_true, empty, Option.map_some]
  exact .some ⟨.nil, rfl⟩

/-- The code that closes a statement comes to the same where a comment asks for it. -/
theorem closed_by_comment (code : dialect.ending word ≠ []) (length : Nat) :
    WrittenAlike dialect source other [.closing word, .kept ⟨n, n⟩] [.ending length word, .kept ⟨m, m⟩] := by
  intro symbols
  have empty (source : Text) (n : Nat) : source.at ⟨n, n⟩ = [] := Text.slice_self source n
  simp only [written?, Part.written?, if_neg code, empty, Option.map_some, List.append_nil]
  exact .some ⟨.marker 0 length _, rfl⟩

end WrittenAlike

namespace Parser

variable {Compiled : Type}

namespace TwoForms

variable {parser : Parser Compiled} {stream : Bool} {resource : Resource} {tag : WrittenTag} {kind : DirectiveKind}
  {word value rest : Text} (forms : parser.TwoForms tag kind word value rest)
  (var : IsAttributeWord (parser.names.name .var)) (placeless : parser.dialect.Placeless)

include forms var placeless

theorem agree_of_silence (silent : parser.dialect.ending word = []) :
    let one : Text := '<' :: tag.name ++ (WrittenAttribute.declaring word value).text ++ rest
    let two : Text := MacroBody.declaringComment word value ++ ('<' :: tag.name ++ rest)
    Agree ParsedTemplate.SameButPlaces (parser.parse stream { resource with source := one }).2
      (parser.parse stream { resource with source := two }).2 := by
  have closed := @agree_of_closed tag word value rest Compiled parser stream resource kind forms var placeless []
    Text.inert_nil [] []
  simp only [List.append_nil] at closed
  refine closed (by rw [Scan.tokens_nil]; exact .done) ?_ fun job w w' _ _ level => level
  rw [Text.byteSize_append (MacroBody.declaringComment word value), layout]
  exact .closed_by_nothing silent

theorem agree_of_ending {last : Text} (code : parser.dialect.ending word ≠ [])
    (ends : parser.names.kindOf? last = some .close) (some_last : last ≠ [])
    (letters : ∀ c ∈ last, CommentDirective.isNameChar c = true) (trimmed : word.trim = word)
    (inert : (MacroBody.declaringComment last word).Inert)
    (tokens : Scan.tokens (MacroBody.declaringComment last word) = [.comment (MacroBody.declaringComment last word)]) :
    let comment := MacroBody.declaringComment word value
    let ending := MacroBody.declaringComment last word
    let one : Text := '<' :: tag.name ++ (WrittenAttribute.declaring word value).text ++ rest
    let two : Text := comment ++ (('<' :: tag.name ++ rest) ++ ending)
    Agree ParsedTemplate.SameButPlaces (parser.parse stream { resource with source := one }).2
      (parser.parse stream { resource with source := two }).2 := by
  intro comment ending one two
  let start := comment.byteSize + Text.byteSize ('<' :: tag.name ++ rest)
  have role : commentRole parser.names (comment ++ (('<' :: tag.name ++ rest) ++ ending)) none
      ⟨start, start + ending.byteSize⟩ = .ending word := by
    have found := MacroBody.commentRole_declaringComment_ending some_last letters ends
      (comment ++ ('<' :: tag.name ++ rest)) word []
    simp only [List.append_nil, trimmed] at found
    rwa [List.append_assoc, Text.byteSize_append comment] at found
  have stop : Text.byteSize (comment ++ (('<' :: tag.name ++ rest) ++ ending)) = start + ending.byteSize := by
    rw [← List.append_assoc, Text.byteSize_append, Text.byteSize_append comment]
  refine @agree_of_closed tag word value rest Compiled parser stream resource kind forms var placeless ending inert
    [.comment ⟨start, start + ending.byteSize⟩] [] ?_ ?_ ?_
  · rw [tokens]
    exact .comment .done
  · rw [stop, layout_comment, role]
    exact (WrittenAlike.closed_by_comment code _).skip
  · intro job w w' names source level
    rw [Walk.siblings, Walk.node, Walk.comment_eq, names, source, role]
    exact ⟨level.symbols, level.macros⟩

end TwoForms

/-- A statement says the same in the tag of an element and in a comment in front of the element, if another comment behind
the element ends it there. -/
theorem forms_agree (parser : Parser Compiled) (stream : Bool) (resource : Resource) (tag : WrittenTag)
    (kind : DirectiveKind) (value rest : Text) (default : parser.names = .default) (placeless : parser.dialect.Placeless)
    (statement : kind.isStatement = true) (element : Text.IsElement tag ('<' :: tag.name ++ rest))
    (undeclared : ∀ a ∈ tag.attributes, a.name ≠ ("macro" : Text))
    (plain : '&' ∉ value) (unquoted : '"' ∉ value) (unended : ¬ ("-->" : Text) <:+: value) :
    let word := kind.defaultName
    let comment (word value : Text) : Text := ("<!--" : Text) ++ word ++ '=' :: '"' :: value ++ ("\"-->" : Text)
    let inTag : Text := '<' :: tag.name ++ ' ' :: word ++ '=' :: '"' :: value ++ '"' :: rest
    let inFront : Text := comment word value ++ ('<' :: tag.name ++ rest) ++
      if parser.dialect.ending word = [] then [] else comment "end" word
    Agree ParsedTemplate.SameButPlaces (parser.parse stream { resource with source := inTag }).2
      (parser.parse stream { resource with source := inFront }).2 := by
  intro word comment inTag inFront
  have unmarked : '"' ∉ word := by cases kind <;> decide
  have forms : parser.TwoForms tag kind word value rest := by
    refine ⟨element, fun a member declares => ?_, ?_, statement, ?_, ?_, plain, unquoted, unended⟩
    · rw [default] at declares
      have own := List.find?_some declares
      exact undeclared a member (of_decide_eq_true own).symm
    · rw [default]
      cases kind <;> decide
    · exact kind.isAttributeWord_defaultName
    · exact kind.isNameChar_defaultName
  have var : IsAttributeWord (parser.names.name .var) := by rw [default]; decide
  have spelled {word value : Text} (unquoted : '"' ∉ value) : comment word value = MacroBody.declaringComment word value := by
    rw [MacroBody.declaringComment, MacroBody.commentQuoted_eq_of_not_mem unquoted]
    simp only [comment, List.append_assoc, List.cons_append, List.nil_append]
    rfl
  have tagSpelled : inTag = '<' :: tag.name ++ (WrittenAttribute.declaring word value).text ++ rest := by
    rw [WrittenAttribute.declaring, MacroBody.attributeQuoted_eq_self plain unquoted]
    simp only [inTag, WrittenAttribute.text, Assignment.text, WrittenValue.text, List.append_assoc, List.cons_append,
      List.nil_append]
  simp only [tagSpelled, inFront, spelled unquoted, spelled unmarked]
  split
  · next silent =>
    rw [List.append_nil]
    exact forms.agree_of_silence var placeless silent
  · next code =>
    rw [List.append_assoc (MacroBody.declaringComment word value)]
    refine forms.agree_of_ending var placeless code (by rw [default]; decide) (by decide)
      (DirectiveKind.isNameChar_defaultName .close) (by cases kind <;> decide) ?_ ?_
    · obtain ⟨c, letters, first, letter⟩ : ∃ c letters, word = c :: letters ∧ c.isAlpha = true := by
        cases kind <;> exact ⟨_, _, rfl, by decide⟩
      exact MacroBody.inert_declaringComment (by decide) unmarked (by cases kind <;> decide) first letter
    · have read := @MacroBody.tokens_declaringComment "end" word (DirectiveKind.isAttributeWord_defaultName .close).2
        (by cases kind <;> decide) []
      rwa [List.append_nil, Scan.tokens_nil] at read

/-- An item that names a condition, in its tag and in front of it, with another statement in the tag and a macro inside. -/
theorem forms_agree_of_list_item :
    let inTag : Text := "<li if=\"a < b\" class='c' set='y'>x<i macro='m'/></li>"
    let inFront : Text := "<!--if=\"a < b\"--><li class='c' set='y'>x<i macro='m'/></li><!--end=\"if\"-->"
    let parsed (source : Text) := (Parser.echo.parse false { name := "list", source }).2
    let code : Text := "\x0211:a < b\x03\x028:y\x03<li class='c'>x\x0214:m\x03</li>\x020:set\x03\x020:if\x03"
    let code' : Text := "\x0217:a < b\x03\x028:y\x03<li class='c'>x\x0214:m\x03</li>\x020:set\x03\x0215:if\x03"
    ∃ one other, parsed inTag = .ok one ∧ parsed inFront = .ok other ∧ one.SameButPlaces other ∧ one.code = code ∧
      other.code = code' := by
  intro inTag inFront parsed code code'
  let tag : WrittenTag := ⟨"li", [⟨" ", "class", some ⟨[], [], .quoted '\'' "c"⟩⟩, ⟨" ", "set", some ⟨[], [], .quoted '\'' "y"⟩⟩],
    [], false⟩
  let rest : Text := " class='c' set='y'>x<i macro='m'/></li>"
  have element : Text.IsElement tag ('<' :: tag.name ++ rest) := by
    have tokens : Scan.tokens ('<' :: tag.name ++ rest) = .startTag tag :: ([.plain "x",
        .startTag ⟨"i", [⟨" ", "macro", some ⟨[], [], .quoted '\'' "m"⟩⟩], [], true⟩] ++ [.endTag "li" []]) := by
      decide +kernel
    exact .closed tokens rfl (.plain (.whole rfl .done)) nofun rfl
  have made (source code : Text) (succeeds : (parsed source).isOk = true)
      (written : (written? Parser.echo.dialect source {} (layout Parser.echo.names source 0 source.byteSize none
        source.nodes)).map Prod.fst = some code) : ∃ template, parsed source = .ok template ∧ template.code = code := by
    obtain ⟨events, template, result⟩ := exists_of_isOk succeeds
    rw [parseWithin_written result] at written
    exact ⟨template, congrArg Prod.snd result, Option.some.inj written⟩
  obtain ⟨one, first, known⟩ := made inTag code (by decide +kernel) (by decide +kernel)
  obtain ⟨other, second, known'⟩ := made inFront code' (by decide +kernel) (by decide +kernel)
  have agree := forms_agree Parser.echo false { name := "list", source := [] } tag .ifTrue "a < b" rest rfl
    (fun _ _ _ _ => rfl) rfl element (by decide) (by decide) (by decide) (by decide)
  have both : Agree ParsedTemplate.SameButPlaces (parsed inTag) (parsed inFront) := agree
  rw [first, second] at both
  exact ⟨one, other, first, second, both, known, known'⟩

end Parser

end MarkupTemplates
