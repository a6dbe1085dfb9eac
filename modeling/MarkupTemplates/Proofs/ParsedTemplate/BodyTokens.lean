import MarkupTemplates.Proofs.Markup.Comments
import MarkupTemplates.Proofs.Markup.Excerpt
import MarkupTemplates.Proofs.Markup.Quoting
import MarkupTemplates.Proofs.ParsedTemplate.Extraction
import MarkupTemplates.Proofs.ParsedTemplate.Values
import MarkupTemplates.Proofs.Text.Trim

namespace MarkupTemplates

/-- The name of an attribute, and its value with character references resolved. -/
def WrittenAttribute.reading (a : WrittenAttribute) : Text × Option Text :=
  (a.name, a.assignment.map fun written => Text.resolved written.value.content)

/-- What a start tag says, whatever the blanks and quotation marks in it. -/
def WrittenTag.readings (tag : WrittenTag) : List (Text × Option Text) :=
  tag.attributes.map WrittenAttribute.reading

/-- The attributes of a tag with the declaration of parameters in place of the one of the macro, which
stands between the two lists. Without parameters that one is left out, and then the slash of the tag can
have become part of the value before it. -/
inductive Redeclared (var : Text) (earlier later : List (Text × Option Text)) :
    Option Text → List (Text × Option Text) → Prop
  | replaced {parameters : Text} :
      Redeclared var earlier later (some parameters) (earlier ++ (var, some parameters) :: later)
  | removed : Redeclared var earlier later none (earlier ++ later)
  | slashed {first : List (Text × Option Text)} {name value : Text} :
      earlier = first ++ [(name, some value)] → later = [] →
      Redeclared var earlier later none (first ++ [(name, some (value ++ ['/']))])

theorem WrittenAttribute.reading_declaring (blanks var parameters : Text) :
    ((WrittenAttribute.declaring var parameters).indented blanks).reading = (var, some parameters) := by
  simp only [reading, indented, declaring, Option.map_some, WrittenValue.content,
    MacroBody.resolved_attributeQuoted]

theorem WrittenAttribute.reading_slashed {a : WrittenAttribute} (unquoted : a.isUnquoted = true) :
    ∃ value, a.reading = (a.name, some value) ∧ a.slashed.reading = (a.name, some (value ++ ['/'])) := by
  obtain ⟨gap, name, _ | ⟨before, after, _ | content⟩⟩ := a
  · exact Bool.noConfusion unquoted
  · exact Bool.noConfusion unquoted
  · refine ⟨Text.resolved content, rfl, ?_⟩
    simp only [reading, slashed, Option.map_some, WrittenValue.content,
      @Text.resolved_append content ['/'] (by decide) (by decide)]

section

variable {written : WrittenTag} {before after : List WrittenAttribute} {own : WrittenAttribute}
  {blanks var parameters : Text}

theorem WrittenTag.readings_without : (written.without before blanks after).readings =
    before.map WrittenAttribute.reading ++ after.map WrittenAttribute.reading := by
  cases after with
  | nil => exact (List.append_nil _).symm
  | cons next after => exact List.map_append

/-- The tag with the declaration of parameters between these attributes. -/
def WrittenTag.redeclared (tag : WrittenTag) (before : List WrittenAttribute) (blanks var parameters : Text)
    (after : List WrittenAttribute) : WrittenTag :=
  { tag with attributes := before ++ (WrittenAttribute.declaring var parameters).indented blanks :: after }

theorem WrittenTag.readings_redeclared : (written.redeclared before blanks var parameters after).readings =
    before.map WrittenAttribute.reading ++ (var, some parameters) :: after.map WrittenAttribute.reading := by
  simp only [readings, redeclared, List.map_append, List.map_cons, WrittenAttribute.reading_declaring]

theorem WrittenTag.text_redeclared : (written.redeclared before blanks var parameters after).text =
    '<' :: written.name ++ before.flatMap WrittenAttribute.text ++ blanks ++
      (WrittenAttribute.declaring var parameters).text ++
      (after.flatMap WrittenAttribute.text ++ written.ending) := by
  rw [WrittenTag.text_eq]
  simp only [redeclared, List.flatMap_append, List.flatMap_cons, WrittenAttribute.text_indented,
    List.append_assoc, List.cons_append]
  rfl

theorem WrittenAttribute.legible_declaring (some_var : var ≠ [])
    (word : ∀ c ∈ var, isAttributeNameChar c = true) :
    (WrittenAttribute.declaring var parameters).Legible := by
  refine ⟨by simp [declaring], List.all_eq_true.mp rfl, some_var, word, fun assignment eq => ?_⟩
  obtain rfl := Option.some.inj eq
  exact ⟨fun c member => absurd member List.not_mem_nil, fun c member => absurd member List.not_mem_nil,
    .inl rfl, MacroBody.quote_not_mem_attributeQuoted parameters⟩

/-- Another attribute can stand among those of a tag, if its value could not take in the slash of the tag. -/
theorem WrittenTag.Legible.inserted (legible : written.Legible) (own_legible : own.Legible)
    (quoted : own.isUnquoted = false) (front : before ⊆ written.attributes) (back : after <:+ written.attributes) :
    WrittenTag.Legible { written with attributes := before ++ own :: after } := by
  refine ⟨legible.name, fun a member => ?_, legible.gap, fun slash noGap a last => ?_⟩
  · rcases List.mem_append.mp member with member | member
    · exact legible.attributes a (front member)
    · rcases List.mem_cons.mp member with rfl | member
      · exact own_legible
      · exact legible.attributes a (back.subset member)
  · have known := legible.apart slash noGap a
    obtain ⟨ahead, split⟩ := back
    rw [← split] at known
    cases after with
    | nil =>
      rw [List.getLast?_append, List.getLast?_singleton, Option.some_or] at last
      rw [← Option.some.inj last]
      exact quoted
    | cons next after =>
      refine known ?_
      simpa using last

theorem WrittenTag.Legible.redeclared (legible : written.Legible)
    (split : written.attributes = before ++ own :: after) (blank : ∀ c ∈ blanks, isGap c = true)
    (some_var : var ≠ []) (word : ∀ c ∈ var, isAttributeNameChar c = true) :
    (written.redeclared before blanks var parameters after).Legible := by
  refine legible.inserted ((WrittenAttribute.legible_declaring some_var word).indented blank) rfl ?_ ?_
  · rw [split]
    exact List.subset_append_left _ _
  · rw [split]
    exact (List.suffix_cons own after).trans (List.suffix_append before _)

end

theorem Token.tag?_retagged {token : Token} {tag : WrittenTag} (tagged : token.tag? = some tag)
    (other : WrittenTag) : (token.retagged other).tag? = some other := by
  cases token with
  | startTag _ => rfl
  | rawElement _ _ => rfl
  | _ => simp [tag?] at tagged

/-- A start tag alone is one piece. -/
theorem Scan.tokens_tag {tag : WrittenTag} (legible : tag.Legible) :
    ∃ first : Token, Scan.tokens tag.text = [first] ∧ first.tag? = some tag := by
  have read := Scan.token?_startTag legible []
  rw [Scan.element?, Scan.startTag?_text legible, Option.map_some, List.append_nil] at read
  cases opens : tag.opensRawText with
  | true =>
    have empty : Scan.rawContent tag.name.lower [] = ([], []) := rfl
    simp only [opens, if_true, empty] at read
    exact ⟨.rawElement tag [], by rw [Scan.tokens_of_some read, Scan.tokens_nil], rfl⟩
  | false =>
    simp only [opens, Bool.false_eq_true, if_false] at read
    exact ⟨.startTag tag, by rw [Scan.tokens_of_some read, Scan.tokens_nil], rfl⟩

/-- What kind of directive a comment is, if it is one. -/
def DirectiveNames.commentKind? (names : DirectiveNames) (comment : Text) : Option DirectiveKind :=
  (CommentDirective.read? 0 comment).bind fun found => names.kindOf? found.name

/-- How the pieces of the body of a macro come about from those of the source that it is taken from. -/
inductive BodyTokens (names : DirectiveNames) (parameters : Option Text) : List Token → List Token → Prop
  /-- An element with another start tag, which says the same but for the declaration of the macro. -/
  | element {before tail after : List Token} {first first' : Token} {written written' : WrittenTag}
      {earlier later : List (Text × Option Text)} {name : Text} {value : Option Text} :
      first.tag? = some written → first'.tag? = some written' →
      written.readings = earlier ++ (name, value) :: later → names.kindOf? name = some .defineMacro →
      (∀ p, parameters = some p → p ⊆ value.getD []) →
      Redeclared (names.name .var) earlier later parameters written'.readings →
      BodyTokens names parameters (before ++ (first :: tail) ++ after) (first' :: tail)
  /-- A run between two comments, behind a comment that declares the parameters if there are some. -/
  | run {before middle after : List Token} {opening : Text} :
      names.commentKind? opening = some .defineMacro → (∀ p, parameters = some p → p ⊆ opening) →
      BodyTokens names parameters (before ++ .comment opening :: (middle ++ after))
        ((parameters.map fun p => .comment (MacroBody.declaringComment (names.name .var) p)).toList ++ middle)

/-- Words that can be the name of an attribute. -/
def IsAttributeWord (word : Text) : Prop := word ≠ [] ∧ ∀ c ∈ word, isAttributeNameChar c = true

-- the characters of the word are gone through, not all there are
instance (word : Text) : Decidable (IsAttributeWord word) :=
  @instDecidableAnd _ _ _ (List.decidableBAll (fun c => isAttributeNameChar c = true) word)

theorem DirectiveNames.isAttributeWord_var : IsAttributeWord (DirectiveNames.default.name .var) := by decide

/-- How the start tag of a macro's body is written: like the one of the element, but with the declaration of the
parameters between these attributes, or with nothing between them. In the latter case the slash of the tag can have
become part of the value before it. -/
inductive WrittenTag.OfBody (var : Text) (written : WrittenTag) (before after : List WrittenAttribute) :
    Option Text → WrittenTag → Prop
  | replaced {parameters blanks : Text} :
      OfBody var written before after (some parameters) (written.redeclared before blanks var parameters after)
  | removed {blanks : Text} : OfBody var written before after none (written.without before blanks after)
  | slashed {earlier : List WrittenAttribute} {last : WrittenAttribute} :
      before = earlier ++ [last] → after = [] → last.isUnquoted = true →
      OfBody var written before after none (written.slashed earlier last)

/-- The pieces of the body that an element gives are those of the element, but for the start tag. -/
theorem written_elementBody {source : Text} {row children : List Node} {tag : Tag} {stop : Nat}
    {front back : List Attribute} {a : Attribute} {var : Text} (siblings : Siblings source.nodes row)
    (member : .element tag stop children ∈ row) (split : tag.attributes = front ++ a :: back)
    (word : IsAttributeWord var) (parameters : Option Text) :
    ∃ ahead first tail behind written position before own after,
      Scan.tokens source = ahead ++ (first :: tail) ++ behind ∧ first.tag? = some written ∧
      tag = written.located (spelling ahead).byteSize ∧ written.attributes = before ++ own :: after ∧
      front = locatedInRow position before ∧ a = own.located (position + sizeInRow before) ∧ ∃ first' other,
        Scan.tokens (MacroBody.ofElement source tag stop a var parameters).text = first' :: tail ∧
        first'.tag? = some other ∧ written.OfBody var before after parameters other := by
  obtain ⟨ahead, first, tail, behind, written, left, here, tagged, legible, rfl, rfl, wholly, _⟩ :=
    element_tokens siblings member
  obtain ⟨before, rest, attributes, rfl, atRest⟩ := locatedInRow_eq_append split
  cases rest with
  | nil => simp [locatedInRow] at atRest
  | cons own after =>
  obtain ⟨rfl, _⟩ := List.cons.inj atRest
  obtain ⟨blanks, blank, gap, one, blank_gap⟩ := (legible.attributes own (by rw [attributes]; simp)).last_blank
  have stands : Stands source (spelling ahead).byteSize (spelling (first :: tail)) := by
    refine ⟨spelling ahead, spelling behind, ?_, rfl⟩
    rw [← spelling_append, ← spelling_append, ← here, spelling, Scan.tokens_spells]
  have spelled : spelling (first :: tail) = written.text ++ (first.content ++ spelling tail) := by
    rw [spelling_cons, Token.text_of_tag tagged, List.append_assoc]
  rw [spelled] at stands ⊢
  rw [ofElement_text_eq stands attributes gap one]
  -- another start tag that is legible leaves the pieces behind it as they are
  have retagged (other : WrittenTag) (alike : Alike written other) (legible' : other.Legible) :
      Scan.tokens (other.text ++ (first.content ++ spelling tail)) = first.retagged other :: tail := by
    have again := Scan.tokens_retagged (Scan.tokens_excerpt here) tagged alike legible'
    rwa [spelling_cons, Token.text_retagged tagged, List.append_assoc] at again
  refine ⟨ahead, first, tail, behind, written, _, before, own, after, here, tagged, rfl, attributes, rfl, rfl, ?_⟩
  cases parameters with
  | some p =>
    have body : '<' :: written.name ++ before.flatMap WrittenAttribute.text ++ blanks ++
        (Option.map (fun p => (WrittenAttribute.declaring var p).text) (some p)).getD [] ++
        (after.flatMap WrittenAttribute.text ++ written.ending ++ (first.content ++ spelling tail)) =
        (written.redeclared before blanks var p after).text ++ (first.content ++ spelling tail) := by
      rw [WrittenTag.text_redeclared]
      simp only [Option.map_some, Option.getD_some, List.append_assoc, List.cons_append]
    rw [body]
    exact ⟨_, _, retagged (written.redeclared before blanks var p after) ⟨rfl, rfl⟩
      (legible.redeclared attributes blank_gap word.1 word.2), Token.tag?_retagged tagged _, .replaced⟩
  | none =>
    have body : '<' :: written.name ++ before.flatMap WrittenAttribute.text ++ blanks ++
        (Option.map (fun p => (WrittenAttribute.declaring var p).text) none).getD [] ++
        (after.flatMap WrittenAttribute.text ++ written.ending ++ (first.content ++ spelling tail)) =
        (written.without before blanks after).text ++ (first.content ++ spelling tail) := by
      rw [WrittenTag.text_without]
      simp only [Option.map_none, Option.getD_none, List.append_assoc, List.append_nil, List.cons_append]
    rw [body]
    by_cases parts : written.slash = true ∧ written.gap = [] ∧ after = [] ∧ blanks = [] ∧
        ∃ a, before.getLast? = some a ∧ a.isUnquoted = true
    · obtain ⟨slash, noGap, rfl, rfl, last, last_before, unquoted⟩ := parts
      obtain ⟨earlier, rfl⟩ := List.getLast?_eq_some_iff.mp last_before
      obtain ⟨rfl, rfl⟩ := wholly (by rw [WrittenTag.isWhole, slash]; rfl)
      have known := legible.attributes
      rw [attributes] at known
      have slashed := legible.slashed (fun a member => known a (List.mem_append_left _ member)) unquoted
      obtain ⟨first', read, tagged'⟩ := Scan.tokens_tag slashed
      rw [show Token.content (.startTag written) ++ spelling [] = [] from rfl, List.append_nil,
        ← WrittenTag.text_slashed unquoted noGap slash]
      exact ⟨first', _, read, tagged', .slashed rfl rfl unquoted⟩
    · refine ⟨_, _, retagged (written.without before blanks after)
        ⟨written.without_name .., written.without_slash ..⟩
        (legible.without attributes blank_gap fun slash noGap last_one noBlanks last last_before => ?_),
        Token.tag?_retagged tagged _, .removed⟩
      rw [← Bool.not_eq_true]
      exact fun unquoted => parts ⟨slash, noGap, last_one, noBlanks, last, last_before, unquoted⟩

theorem tokens_of_elementBody {names : DirectiveNames} {source : Text} {row children : List Node} {tag : Tag}
    {stop : Nat} {a : Attribute} (siblings : Siblings source.nodes row)
    (member : .element tag stop children ∈ row) (inside : a ∈ tag.attributes)
    (declares : names.kindOf? a.name = some .defineMacro) (word : IsAttributeWord (names.name .var))
    {parameters : Option Text} (among : ∀ p, parameters = some p → p ⊆ a.value.getD []) :
    BodyTokens names parameters (Scan.tokens source)
      (Scan.tokens (MacroBody.ofElement source tag stop a (names.name .var) parameters).text) := by
  obtain ⟨front, back, split⟩ := List.append_of_mem inside
  obtain ⟨ahead, first, tail, behind, written, position, before, own, after, here, tagged, _, attributes, _,
    rfl, first', other, body, tagged', ofBody⟩ := written_elementBody siblings member split word parameters
  have readings : written.readings = before.map WrittenAttribute.reading ++
      own.reading :: after.map WrittenAttribute.reading := by
    rw [WrittenTag.readings, attributes, List.map_append, List.map_cons]
  rw [here, body]
  refine .element tagged tagged' readings declares among ?_
  cases ofBody with
  | replaced =>
    rw [WrittenTag.readings_redeclared]
    exact .replaced
  | removed =>
    rw [WrittenTag.readings_without]
    exact .removed
  | @slashed earlier last eq last_one unquoted =>
    obtain ⟨value, reading, reading'⟩ := WrittenAttribute.reading_slashed unquoted
    have eq' : (written.slashed earlier last).readings =
        earlier.map WrittenAttribute.reading ++ [(last.name, some (value ++ ['/']))] := by
      simp only [WrittenTag.readings, WrittenTag.slashed, List.map_append, List.map_cons, List.map_nil, reading']
    rw [eq', eq, last_one]
    refine .slashed ?_ rfl
    rw [List.map_append, List.map_cons, List.map_nil, reading]

/-- What a comment says does not depend on where it stands. -/
theorem CommentDirective.read?_shift {start : Nat} {comment : Text} {found : CommentDirective}
    (h : read? start comment = some found) (start' : Nat) :
    ∃ found', read? start' comment = some found' ∧ found'.name = found.name ∧ found'.value = found.value := by
  obtain ⟨w, legible, rfl, rfl⟩ := read?_eq_some_iff.mp h
  exact ⟨_, read?_text legible start', rfl, rfl⟩

/-- The macro was opened by a comment of the source, and is called as that comment says. -/
def OpenMacro.Declared (names : DirectiveNames) (source : Text) (opened : OpenMacro) : Prop :=
  ∃ found, CommentDirective.read? opened.comment.start (source.at opened.comment) = some found ∧
    names.kindOf? found.name = some .defineMacro ∧ opened.directive = found.name ∧ opened.value = found.value

def Duty.Declared (names : DirectiveNames) (source : Text) : Duty → Prop
  | row opened _ => ∀ found, opened = some found → found.Declared names source
  | _ => True

theorem declared_of_opens? {names : DirectiveNames} {source : Text} {opened : Option OpenMacro} {span : Span}
    (earlier : ∀ found, opened = some found → found.Declared names source) {next : OpenMacro}
    (opens : (commentRole names source opened span).opens? opened = some next) : next.Declared names source := by
  cases role : commentRole names source opened span with
  | text =>
    rw [role] at opens
    exact earlier next opens
  | opensMacro own =>
    rw [role] at opens
    obtain rfl := Option.some.inj opens
    unfold commentRole at role
    split at role
    · exact absurd role nofun
    · next found read =>
      split at role
      · next kind =>
        obtain rfl := CommentRole.opensMacro.inj role
        exact ⟨found, read, kind, rfl, rfl⟩
      · split at role <;> exact absurd role nofun
      all_goals exact absurd role nofun
  | _ =>
    rw [role] at opens
    exact absurd opens nofun

/-- A walk opens macros where comments of the source say so. -/
theorem Walk.Runs.declared {Compiled : Type} {job : Job Compiled} {w w' : Walk Compiled}
    {agenda agenda' : List Duty} {requests : List Request} (run : Runs job w agenda requests w' agenda')
    (here : ∀ duty ∈ agenda, duty.Declared job.names job.resource.source) :
    ∀ duty ∈ agenda', duty.Declared job.names job.resource.source := by
  induction run with
  | done => exact here
  | @step w duty rest w1 agenda1 requests w2 agenda2 advanced _ ih =>
    have own := here duty List.mem_cons_self
    have others : ∀ next ∈ rest, next.Declared job.names job.resource.source := fun next member =>
      here next (List.mem_cons_of_mem _ member)
    have closed (nodes : List Node) : (Duty.row none nodes).Declared job.names job.resource.source := nofun
    refine ih ?_
    cases advance_advances advanced with
    | ended | statement _ | closing => exact others
    | comment commented =>
      refine List.forall_mem_cons.mpr ⟨fun found eq => ?_, others⟩
      exact declared_of_opens? own ((comment_opens commented).symm.trans eq)
    | passed => exact List.forall_mem_cons.mpr ⟨own, others⟩
    | @extracted _ _ _ nodes _ _ _ _ => exact List.forall_mem_cons.mpr ⟨closed nodes, others⟩
    | @entered _ _ children nodes _ =>
      refine List.forall_mem_append.mpr ⟨fun next member => ?_, List.forall_mem_cons.mpr ⟨closed children,
        List.forall_mem_append.mpr ⟨fun next member => ?_, List.forall_mem_cons.mpr ⟨closed nodes, others⟩⟩⟩⟩
      · obtain ⟨_, _, rfl⟩ := List.mem_map.mp member
        trivial
      · obtain ⟨_, _, rfl⟩ := List.mem_map.mp member
        trivial

/-- The pieces that stand between two comments in a row of siblings, and those around them. -/
theorem tokens_between_comments {source : Text} {first between second : List Node} {opening closing : Span}
    (siblings : Siblings source.nodes (first ++ .comment opening :: (between ++ .comment closing :: second))) :
    ∃ before middle after, Scan.tokens source = before ++ .comment (source.at opening) :: (middle ++ after) ∧
      source.at ⟨opening.stop, closing.start⟩ = spelling middle := by
  obtain ⟨_, document⟩ := formed_nodes source
  obtain ⟨outer, before, inner, after, _, pieces, formed⟩ := document.siblings siblings
  obtain ⟨front, text, rest, rfl, openedAt, _, behind⟩ := formed.split_comment
  obtain ⟨middle, text', tail, rfl, closedAt, formed, _⟩ := behind.split_comment
  have here : Scan.tokens source =
      (before ++ front) ++ .comment text :: (middle ++ (.comment text' :: (tail ++ after))) := by
    rw [pieces]
    simp only [List.append_assoc, List.cons_append]
  have spelled : source = spelling (before ++ front) ++ (text ++ (spelling middle ++
      spelling (.comment text' :: (tail ++ after)))) := by
    rw [← spelling_append, ← show (Token.comment text).text = text from rfl, ← spelling_cons, ← spelling_append,
      ← here, spelling, Scan.tokens_spells]
  have start : opening = ⟨(spelling (before ++ front)).byteSize,
      (spelling (before ++ front)).byteSize + Text.byteSize text⟩ := by
    rw [openedAt]
    simp only [byteSize_spelling_append, byteSize_spelling_singleton, Nat.zero_add, Nat.add_assoc, Token.text]
  have stop : closing.start = opening.stop + (spelling middle).byteSize := by rw [closedAt]
  have stands : Stands source (spelling (before ++ front)).byteSize (text ++ (spelling middle ++
      spelling (.comment text' :: (tail ++ after)))) :=
    ⟨spelling (before ++ front), [], by rw [List.append_nil]; exact spelled, rfl⟩
  have opened : source.at opening = text := by
    rw [start]
    exact stands.left.slice
  refine ⟨_, middle, _, by rw [opened]; exact here, ?_⟩
  rw [Text.at, stop, start]
  exact stands.right.left.slice

/-- Parameters are what stands between the first parenthesis and a last one. -/
theorem MacroHead.parameters_origin {directive value parameters : Text} {head : MacroHead}
    (h : MacroHead.read directive value = .ok head) (declared : head.parameters = some parameters) :
    ∃ before inner all, value.trim.cutAt? '(' = some (before, inner) ∧ Text.before? [')'] inner = some all ∧
      parameters = all.trim := by
  unfold MacroHead.read at h
  split at h
  · exact absurd h nofun
  · next name listed found =>
    split at h
    · exact absurd h nofun
    · split at h
      · obtain rfl := Except.ok.inj h
        simp only at declared
        split at declared
        · exact absurd declared nofun
        · next some_listed =>
          obtain rfl := Option.some.inj declared
          unfold MacroHead.split at found
          split at found
          · next before inner cut =>
            split at found
            · obtain ⟨_, rfl⟩ := Prod.mk.inj (Option.some.inj found)
              exact absurd rfl some_listed
            · obtain ⟨all, ends, eq⟩ := Option.map_eq_some_iff.mp found
              obtain ⟨_, rfl⟩ := Prod.mk.inj eq
              exact ⟨before, inner, all, cut, ends, rfl⟩
          · obtain ⟨_, rfl⟩ := Prod.mk.inj (Option.some.inj found)
            exact absurd rfl some_listed
      · exact absurd h nofun

/-- Parameters are a stretch of the value that declares the macro. -/
theorem MacroHead.parameters_infix {directive value parameters : Text} {head : MacroHead}
    (h : MacroHead.read directive value = .ok head) (declared : head.parameters = some parameters) :
    parameters <:+: value := by
  obtain ⟨before, inner, all, cut, ends, rfl⟩ := MacroHead.parameters_origin h declared
  have within : all <:+: value.trim := by
    rw [Text.eq_append_of_cutAt? cut, Text.eq_append_of_before? ends]
    exact ⟨before ++ ['('], [')'], by simp only [List.append_assoc, List.cons_append, List.nil_append]⟩
  exact all.trim_isInfix.trans (within.trans value.trim_isInfix)

/-- The pieces of the body that a run between two comments gives are those that stand there, behind a comment that
declares the parameters if there are some. -/
theorem tokens_of_runBody {names : DirectiveNames} {source : Text} {first between second : List Node}
    {opened : OpenMacro} {closing : Span} {head : MacroHead}
    (siblings : Siblings source.nodes
      (first ++ .comment opened.comment :: (between ++ .comment closing :: second)))
    (declared : opened.Declared names source) (read : MacroHead.read opened.directive opened.value = .ok head)
    (word : IsAttributeWord (names.name .var)) :
    ∃ before middle after,
      Scan.tokens source = before ++ .comment (source.at opened.comment) :: (middle ++ after) ∧
      names.commentKind? (source.at opened.comment) = some .defineMacro ∧
      (∀ p, head.parameters = some p → p ⊆ source.at opened.comment) ∧
      Scan.tokens (MacroBody.ofRun source ⟨opened.comment.stop, closing.start⟩ opened.comment.start
          (names.name .var) head.parameters).text =
        (head.parameters.map fun p => .comment (MacroBody.declaringComment (names.name .var) p)).toList ++ middle := by
  obtain ⟨before, middle, after, pieces, excerpt⟩ := tokens_between_comments siblings
  obtain ⟨found, comment, kind, _, value⟩ := declared
  have own : Scan.tokens (spelling middle) = middle :=
    @Scan.tokens_excerpt source (before ++ [.comment (source.at opened.comment)]) middle after (by
      rw [pieces]
      simp only [List.append_assoc, List.cons_append, List.nil_append])
  have opens : names.commentKind? (source.at opened.comment) = some .defineMacro := by
    obtain ⟨found', again, name, _⟩ := CommentDirective.read?_shift comment 0
    rw [DirectiveNames.commentKind?, again, Option.bind_some, name, kind]
  have text : (MacroBody.ofRun source ⟨opened.comment.stop, closing.start⟩ opened.comment.start
      (names.name .var) head.parameters).text = (head.parameters.map fun p =>
        MacroBody.declaringComment (names.name .var) p).getD [] ++ spelling middle := by
    rw [← excerpt]
    cases head.parameters <;> rfl
  obtain ⟨inner, whole, stretch⟩ := CommentDirective.read?_inner comment
  have within (p : Text) (parameters : head.parameters = some p) : p <:+: inner :=
    (MacroHead.parameters_infix read parameters).trans (value ▸ stretch)
  have among (p : Text) (parameters : head.parameters = some p) : p ⊆ source.at opened.comment := by
    rw [whole]
    exact List.Subset.trans (within p parameters).subset
      (List.subset_append_of_subset_right _ (List.subset_append_left _ _))
  have sound := Scan.tokens_soundComment source (.comment (source.at opened.comment)) (by rw [pieces]; simp)
  refine ⟨before, middle, after, pieces, opens, among, ?_⟩
  rw [text]
  cases parameters : head.parameters with
  | none => rw [Option.map_none, Option.getD_none, List.nil_append, own, Option.map_none, Option.toList_none,
      List.nil_append]
  | some p =>
    have unended : ¬ commentEnd <:+: p := fun inside => sound inner whole (inside.trans (within p parameters))
    rw [Option.map_some, Option.getD_some, MacroBody.tokens_declaringComment word.2 unended, own, Option.map_some,
      Option.toList_some, List.singleton_append]

/-- A macro that is closed was opened by a comment in the same row. -/
theorem Duty.From.opening {names : DirectiveNames} {roots nodes : List Node}
    {opened : OpenMacro} {span : Span}
    (here : (Duty.row (some opened) (.comment span :: nodes)).From names roots) :
    ∃ first between,
      Siblings roots (first ++ .comment opened.comment :: (between ++ .comment span :: nodes)) := by
  obtain ⟨before, siblings, earlier⟩ := here
  obtain ⟨front, between, rfl⟩ := List.append_of_mem (earlier opened rfl)
  rw [List.append_assoc, List.cons_append] at siblings
  exact ⟨front, between, siblings⟩

/-- The pieces of the body of any macro that a walk comes to are those of the source with the declaration of
the parameters in place of the one of the macro. -/
theorem Duty.Extracts.tokens {names : DirectiveNames} {source : Text} {duty : Duty} {head : MacroHead}
    {body : MacroBody} {segments : List Segment} (extracts : duty.Extracts names source head body segments)
    (here : duty.From names source.nodes) (declared : duty.Declared names source)
    (word : IsAttributeWord (names.name .var)) :
    BodyTokens names head.parameters (Scan.tokens source) (Scan.tokens body.text) := by
  cases extracts with
  | @element tag stop children nodes declaration head declares read =>
    obtain ⟨before, siblings, _⟩ := here
    have kind := List.find?_some declares
    refine tokens_of_elementBody siblings (List.mem_append_right _ List.mem_cons_self) (List.mem_of_find?_eq_some declares)
      (of_decide_eq_true kind) word fun p eq => ?_
    exact (MacroHead.parameters_infix read eq).subset
  | @run opened found span nodes head closes read =>
    obtain rfl : opened = found := by
      have known := commentRole_ok names source (some opened) span
      rw [closes] at known
      exact Option.some.inj known
    obtain ⟨_, _, siblings⟩ := here.opening
    obtain ⟨before, middle, after, pieces, opens, among, body⟩ :=
      tokens_of_runBody siblings (declared opened rfl) read word
    rw [pieces, body]
    exact .run opens among

end MarkupTemplates
