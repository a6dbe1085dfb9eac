import MarkupTemplates.Proofs.Markup.Comments
import MarkupTemplates.Proofs.Markup.Excerpt
import MarkupTemplates.Proofs.ParsedTemplate.MacroOrigin
import MarkupTemplates.Proofs.Program.Identifiers
import MarkupTemplates.Proofs.Text.Chunks

namespace MarkupTemplates

/-- The comment that begins a macro of that name. -/
def macroOpening (name : Text) : Text := ("<!--macro=\"" : Text) ++ (name ++ ("\"-->" : Text))

/-- The comment that ends a macro. -/
def macroClosing : Text := "<!--end=\"macro\"-->"

/-- The value of a variable, put into text. -/
def interpolated (name : Text) : Text := ("$\x7b" : Text) ++ (name ++ ("\x7d" : Text))

/-- A text set apart as a macro of that name, and the macro called behind it. -/
def abstracted (name body : Text) : Text :=
  macroOpening name ++ (body ++ (macroClosing ++ interpolated name))

/-- Where the comment stands that ends the macro. -/
def abstractedClosing (name body : Text) : Span :=
  ⟨(macroOpening name).byteSize + body.byteSize, (macroOpening name).byteSize + body.byteSize + macroClosing.byteSize⟩

namespace CommentDirective

/-- A directive reads as it is written. -/
theorem read?_quoted {word : Text} (some_word : word ≠ []) (letters : ∀ c ∈ word, isNameChar c = true) {mark : Char}
    (quote : mark = '"' ∨ mark = '\'') (start : Nat) (value : Text) :
    read? start (("<!--" : Text) ++ (word ++ '=' :: mark :: (value ++ mark :: ("-->" : Text)))) =
      some { name := word, value, nameStart := start + 4, valueStart := start + 6 + word.byteSize } := by
  have isMark : isQuote mark = true := by rcases quote with rfl | rfl <;> rfl
  let w : WrittenComment := ⟨[], word, [], [], mark, value, mark, []⟩
  have none {p : Char → Bool} (c : Char) (member : c ∈ ([] : Text)) : p c = true := absurd member List.not_mem_nil
  have legible : w.Legible := ⟨none, some_word, letters, none, none, isMark, isMark, none⟩
  have valueStart : Text.byteSize (w.head ++ [w.mark]) = 6 + word.byteSize := by
    have opening : Text.byteSize ("<!--" : Text) = 4 := by decide
    have sign : '='.utf8Size = 1 := by decide
    have one : mark.utf8Size = 1 := utf8Size_of_isQuote isMark
    simp only [w, WrittenComment.head, Text.byteSize_append, Text.byteSize_cons, Text.byteSize_nil, opening, sign, one]
    omega
  refine (congrArg (read? start) w.shape).symm.trans ?_
  rw [read?_text legible, WrittenComment.reading, valueStart, ← Nat.add_assoc]
  rfl

end CommentDirective

namespace MacroBody

variable {names : DirectiveNames} {word : Text} (some_word : word ≠ [])
  (letters : ∀ c ∈ word, CommentDirective.isNameChar c = true)

include some_word letters

/-- A comment of a word and a value reads as it is meant. -/
theorem read?_declaringComment (start : Nat) (value : Text) :
    CommentDirective.read? start (declaringComment word value) =
      some { name := word, value, nameStart := start + 4, valueStart := start + 6 + word.byteSize } := by
  obtain ⟨mark, quote, quoted⟩ := commentQuoted_eq value
  have spelled : declaringComment word value =
      ("<!--" : Text) ++ (word ++ '=' :: mark :: (value ++ mark :: ("-->" : Text))) := by
    simp only [declaringComment, quoted, List.append_assoc, List.cons_append, List.nil_append]
  rw [spelled]
  exact CommentDirective.read?_quoted some_word letters quote start value

/-- It reads so wherever it stands. -/
theorem read?_declaringComment_at (before value after : Text) :
    let comment := declaringComment word value
    CommentDirective.read? before.byteSize ((before ++ (comment ++ after)).at
        ⟨before.byteSize, before.byteSize + comment.byteSize⟩) =
      some { name := word, value, nameStart := before.byteSize + 4
             valueStart := before.byteSize + 6 + word.byteSize } := by
  intro comment
  have here : (before ++ (comment ++ after)).at ⟨before.byteSize, before.byteSize + comment.byteSize⟩ = comment := by
    rw [← List.append_assoc]
    exact Text.slice_append before comment after
  rw [here]
  exact read?_declaringComment some_word letters before.byteSize value

/-- A comment of a word for statements and a value is a statement. -/
theorem commentRole_declaringComment {kind : DirectiveKind} (states : names.kindOf? word = some kind)
    (statement : kind.isStatement = true) (before value after : Text) :
    let comment := declaringComment word value
    ∃ directive, commentRole names (before ++ (comment ++ after)) none
        ⟨before.byteSize, before.byteSize + comment.byteSize⟩ = .statement directive ∧ directive.kind = kind ∧
      directive.name = word ∧ directive.value = value.trim ∧ directive.start = before.byteSize + 4 := by
  intro comment
  rw [commentRole, read?_declaringComment_at some_word letters]
  simp only [states]
  cases kind with
  | close => cases statement
  | defineMacro => cases statement
  | _ => exact ⟨_, rfl, rfl, rfl, rfl, rfl⟩

/-- A comment of the word that ends statements and a value ends the statement that the value names. -/
theorem commentRole_declaringComment_ending (ends : names.kindOf? word = some .close) (before value after : Text) :
    let comment := declaringComment word value
    commentRole names (before ++ (comment ++ after)) none ⟨before.byteSize, before.byteSize + comment.byteSize⟩ =
      .ending value.trim := by
  intro comment
  rw [commentRole, read?_declaringComment_at some_word letters]
  simp only [ends]

end MacroBody

/-- A text without angle brackets is a single piece. -/
theorem Scan.tokens_of_text {c : Char} {t : Text} (none : ∀ d ∈ c :: t, d ≠ '<') :
    Scan.tokens (c :: t) = [.plain (c :: t)] := by
  have unopened (more : Text) : Text.after? ('<' :: more) (c :: t) = Option.none := by
    rw [Text.after?, if_neg (Ne.symm (none c List.mem_cons_self))]
  have construct (more closing : Text) (token : Text → Token) :
      construct? ('<' :: more) closing token (c :: t) = Option.none := by
    rw [construct?, unopened]
    rfl
  have ends : endTag? (c :: t) = Option.none := by
    rw [endTag?, unopened]
    rfl
  have starts : element? (c :: t) = Option.none := by
    rw [element?, startTag?, unopened]
    rfl
  have rest : ∀ d ∈ t, (d != '<') = true := fun d inside => bne_iff_ne.mpr (none d (List.mem_cons_of_mem c inside))
  have read : Scan.token? (c :: t) = some (.plain (c :: t), []) := by
    rw [token?, show construct? "<!--" _ _ _ = _ from construct _ _ _,
      show construct? "<![CDATA[" _ _ _ = _ from construct _ _ _, show construct? "<!" _ _ _ = _ from construct _ _ _,
      show construct? "<?" _ _ _ = _ from construct _ _ _, ends, starts, plain?, List.takeWhile_eq_self_iff.mpr rest,
      List.dropWhile_eq_nil_iff.mpr rest]
    rfl
  rw [Scan.tokens_of_some read]
  rw [Scan.tokens]
  rfl

section

variable {name body : Text}

theorem macroOpening_eq (name : Text) : macroOpening name =
    ("<!--" : Text) ++ (("macro" : Text) ++ '=' :: '"' :: (name ++ '"' :: ("-->" : Text))) := by
  have front : ("<!--macro=\"" : Text) = ("<!--" : Text) ++ (("macro" : Text) ++ ['=', '"']) := by decide
  have back : ("\"-->" : Text) = '"' :: ("-->" : Text) := by decide
  unfold macroOpening
  rewrite [front, back, List.append_assoc, List.append_assoc]
  rfl

theorem tokens_macroOpening (identifier : name.isIdentifier = true) (rest : Text) :
    Scan.tokens (macroOpening name ++ rest) = .comment (macroOpening name) :: Scan.tokens rest := by
  have unended : ¬ commentEnd <:+: ("macro" : Text) ++ '=' :: '"' :: name := by
    intro inside
    have bracket := inside.subset (show '>' ∈ commentEnd by decide)
    simp only [List.mem_append, List.mem_cons] at bracket
    rcases bracket with bracket | bracket | bracket | bracket
    · exact absurd bracket (by decide)
    · exact absurd bracket (by decide)
    · exact absurd bracket (by decide)
    · exact Text.not_mem_of_isIdentifier identifier (by decide) bracket
  have read := @Scan.token?_comment (("macro" : Text) ++ '=' :: '"' :: name) '"' (by decide) unended rest
  rw [List.append_assoc ("macro" : Text), List.cons_append, List.cons_append,
    show commentEnd = ("-->" : Text) from rfl, ← macroOpening_eq] at read
  exact Scan.tokens_of_some read

theorem tokens_interpolated (identifier : name.isIdentifier = true) :
    Scan.tokens (interpolated name) = [.plain (interpolated name)] := by
  refine @Scan.tokens_of_text '$' ('\x7b' :: (name ++ ("\x7d" : Text))) fun c member => ?_
  rintro rfl
  rcases List.mem_cons.mp member with eq | member
  · exact absurd eq (by decide)
  rcases List.mem_cons.mp member with eq | member
  · exact absurd eq (by decide)
  rcases List.mem_append.mp member with member | member
  · exact Text.not_mem_of_isIdentifier identifier (by decide) member
  · exact absurd member (by decide)

/-- If the comment that ends the macro is one on the outermost level, then the text that is set apart reads between
the two comments as it reads by itself. -/
theorem nodes_of_abstracted (identifier : name.isIdentifier = true)
    (closes : .comment (abstractedClosing name body) ∈ (abstracted name body).nodes) :
    Scan.tokens (abstracted name body) = .comment (macroOpening name) ::
        (Scan.tokens body ++ [.comment macroClosing, .plain (interpolated name)]) ∧
      (abstracted name body).nodes = .comment ⟨0, (macroOpening name).byteSize⟩ ::
        (body.nodes.map (Node.relocated fun n => (macroOpening name).byteSize + n) ++
          [.comment (abstractedClosing name body)]) := by
  obtain ⟨left, document⟩ := formed_nodes (abstracted name body)
  obtain ⟨first, second, split⟩ := List.append_of_mem closes
  have whole := document
  rw [split] at document
  obtain ⟨before, text, after, pieces, place, inFront, behind⟩ := document.split_comment
  obtain ⟨start, stop⟩ := Span.mk.inj place
  rw [Nat.zero_add] at start
  rw [Nat.zero_add, byteSize_spelling_append, byteSize_spelling_singleton, Token.text, ← start] at stop
  -- the pieces are divided where the text is
  have spelled : spelling before ++ (text ++ spelling after) = macroOpening name ++ body ++
      (macroClosing ++ interpolated name) := by
    rw [List.append_assoc, ← abstracted, ← Scan.tokens_spells (abstracted name body), ← spelling, pieces,
      spelling_append, spelling_cons, Token.text]
  obtain ⟨front, rest⟩ := Text.append_inj_of_byteSize spelled (by rw [Text.byteSize_append, ← start])
  obtain ⟨rfl, call⟩ := Text.append_inj_of_byteSize rest (by omega)
  have opens := tokens_macroOpening identifier (body ++ (macroClosing ++ interpolated name))
  rw [← abstracted, pieces] at opens
  cases before with
  | nil =>
    have none := (List.append_eq_nil_iff.mp (List.append_eq_nil_iff.mp front.symm).1).1
    exact absurd none (by decide)
  | cons token middle =>
    obtain rfl := (List.cons.inj opens).1
    have inside : spelling middle = body := List.append_cancel_left front
    have own : Scan.tokens body = middle := by
      rw [← inside]
      exact @Scan.tokens_excerpt (abstracted name body) [.comment (macroOpening name)] middle
        (.comment macroClosing :: after) (by rw [pieces]; rfl)
    have last : after = [.plain (interpolated name)] := by
      rw [← tokens_interpolated identifier, ← call]
      refine (@Scan.tokens_excerpt (abstracted name body) (.comment (macroOpening name) :: middle ++
        [.comment macroClosing]) after [] ?_).symm
      rw [pieces, List.append_nil, List.append_assoc, List.singleton_append]
    rw [last] at behind pieces
    obtain rfl : second = [] := by
      cases behind with
      | plain rest =>
        cases rest
        rfl
    obtain ⟨_, alone⟩ := formed_nodes body
    rw [own] at alone
    cases inFront with
    | comment between =>
      have relocated := Formed.unique (alone.relocated fun n => by rw [Nat.zero_add]) between
      rw [Nat.zero_add] at relocated
      exact ⟨by rw [pieces, own]; rfl, by rw [split, ← relocated, Nat.zero_add]; rfl⟩

end

/-- A comment reads the same where the text that it is in is part of another one. -/
theorem at_comment_of_append {body : Text} {span : Span} (member : .comment span ∈ body.nodes) (front rest : Text) :
    (front ++ (body ++ rest)).at (span.relocated fun n => front.byteSize + n) = body.at span := by
  obtain ⟨left, document⟩ := formed_nodes body
  obtain ⟨first, second, split⟩ := List.append_of_mem member
  rw [split] at document
  obtain ⟨before, text, after, pieces, rfl, _, _⟩ := document.split_comment
  have spelled : body = spelling before ++ text ++ spelling after := by
    rw [List.append_assoc, ← Scan.tokens_spells body, ← spelling, pieces, spelling_append, spelling_cons, Token.text]
  have within := Text.slice_append (spelling before) text (spelling after)
  have around := Text.slice_append (front ++ spelling before) text (spelling after ++ rest)
  have parts : front ++ (body ++ rest) = front ++ spelling before ++ text ++ (spelling after ++ rest) := by
    rw [spelled]
    simp only [List.append_assoc]
  rw [← spelled] at within
  rw [← parts, Text.byteSize_append] at around
  simp only [Span.relocated, byteSize_spelling_append, byteSize_spelling_singleton, Token.text, Nat.zero_add,
    Text.at, ← Nat.add_assoc, around, within]

/-- The comment begins a macro, or ends one. -/
def DirectiveNames.BoundsMacro (names : DirectiveNames) (comment : Text) : Prop :=
  ∃ found, CommentDirective.read? 0 comment = some found ∧
    (names.kindOf? found.name = some .defineMacro ∨
      names.kindOf? found.name = some .close ∧ found.value.trim = ("macro" : Text))

theorem commentRole_inside {names : DirectiveNames} {source : Text} {span : Span}
    (inside : ¬ names.BoundsMacro (source.at span)) (opened : OpenMacro) :
    commentRole names source (some opened) span = .text := by
  unfold commentRole
  cases read : CommentDirective.read? span.start (source.at span) with
  | none => rfl
  | some found =>
    obtain ⟨found', again, name, value⟩ := CommentDirective.read?_shift read 0
    simp only
    cases known : names.kindOf? found.name with
    | none => rfl
    | some kind =>
      cases kind with
      | defineMacro => exact absurd ⟨found', again, .inl (name ▸ known)⟩ inside
      | close =>
        by_cases bounds : found.value.trim = ("macro" : Text)
        · exact absurd ⟨found', again, .inr ⟨name ▸ known, value ▸ bounds⟩⟩ inside
        · exact if_neg bounds
      | _ => rfl

/-- While a macro is open, nodes come to nothing as long as no comment among them counts. -/
theorem Walk.siblings_inside {Compiled : Type} {job : Job Compiled} {w : Walk Compiled} {opened : OpenMacro}
    {nodes : List Node} (inside : ∀ span, .comment span ∈ nodes →
      commentRole job.names job.resource.source (some opened) span = .text) (rest : List Node) :
    Walk.siblings job (some opened) w (nodes ++ rest) = Walk.siblings job (some opened) w rest := by
  induction nodes with
  | nil => rfl
  | cons first nodes ih =>
    rw [List.cons_append, Walk.siblings]
    have passed : Walk.node job (some opened) w first = .ok (some opened, w) := by
      cases first with
      | comment span => rw [Walk.node, Walk.comment_eq, inside span List.mem_cons_self]
      | element => rfl
    rw [passed]
    exact ih fun span member => inside span (List.mem_cons_of_mem _ member)

theorem layout_inside {names : DirectiveNames} {source : Text} {cursor stop : Nat} {opened : OpenMacro}
    {nodes : List Node} (inside : ∀ span, .comment span ∈ nodes →
      commentRole names source (some opened) span = .text) (rest : List Node) :
    layout names source cursor stop (some opened) (nodes ++ rest) =
      layout names source cursor stop (some opened) rest := by
  induction nodes with
  | nil => rfl
  | cons first nodes ih =>
    have others := ih fun span member => inside span (List.mem_cons_of_mem _ member)
    cases first with
    | comment span =>
      rw [List.cons_append, layout_comment, inside span List.mem_cons_self]
      exact others
    | element => exact others

/-- The comment that begins the macro, as it waits for the one that ends it. -/
def macroOpened (name : Text) : OpenMacro := ⟨⟨0, (macroOpening name).byteSize⟩, "macro", name⟩

/-- Where the text stands that is set apart. -/
def Text.runOf (body name : Text) : Span := ⟨(macroOpening name).byteSize, (abstractedClosing name body).start⟩

/-- The text that is set apart, as the body of the macro. -/
def Text.asMacro (body name : Text) : MacroBody := ⟨body, [⟨0, body.runOf name⟩], 0⟩

/-- The text can be set apart under that name: the comment that ends the macro is on the outermost level, and so is
no comment in the text that bounds another macro. -/
structure SetApart (name body : Text) : Prop where
  identifier : name.isIdentifier = true
  other : name ∉ Literal.words
  closes : .comment (abstractedClosing name body) ∈ (abstracted name body).nodes
  inner : ∀ span, .comment span ∈ body.nodes → ¬ DirectiveNames.default.BoundsMacro (body.at span)

namespace SetApart

variable {name body : Text}

theorem commentRole_opening (name body : Text) :
    commentRole .default (abstracted name body) none (macroOpened name).comment = .opensMacro (macroOpened name) := by
  have here : (abstracted name body).at (macroOpened name).comment = macroOpening name := by
    exact Text.slice_append_front (macroOpening name) (body ++ (macroClosing ++ interpolated name))
  have read := @CommentDirective.read?_quoted "macro" (by decide) (List.all_eq_true.mp rfl) '"' (.inl rfl) 0 name
  rw [← macroOpening_eq] at read
  rw [commentRole, here, show (macroOpened name).comment.start = 0 from rfl, read]
  rfl

theorem commentRole_closing (name body : Text) (opened : OpenMacro) :
    commentRole .default (abstracted name body) (some opened) (abstractedClosing name body) =
      .closesMacro opened := by
  have here : (abstracted name body).at (abstractedClosing name body) = macroClosing := by
    have cut := Text.slice_append (macroOpening name ++ body) macroClosing (interpolated name)
    rw [Text.byteSize_append, List.append_assoc, List.append_assoc] at cut
    exact cut
  have spelled : macroClosing = ("<!--" : Text) ++ (("end" : Text) ++ '=' :: '"' :: (("macro" : Text) ++
      '"' :: ("-->" : Text))) := by
    decide
  have read := @CommentDirective.read?_quoted "end" (by decide) (List.all_eq_true.mp rfl) '"' (.inl rfl)
    (abstractedClosing name body).start "macro"
  rw [← spelled] at read
  have known : DirectiveNames.default.kindOf? ("end" : Text) = some .close := by decide
  have ends : Text.trim "macro" = ("macro" : Text) := by decide
  rw [commentRole, here, read]
  simp only [known, if_pos ends]

section

variable (apart : SetApart name body)

include apart

theorem nodes_eq : (abstracted name body).nodes = .comment (macroOpened name).comment ::
    (body.nodes.map (Node.relocated fun n => (macroOpening name).byteSize + n) ++
      [.comment (abstractedClosing name body)]) :=
  (nodes_of_abstracted apart.identifier apart.closes).2

theorem inside (span : Span)
    (member : .comment span ∈ body.nodes.map (Node.relocated fun n => (macroOpening name).byteSize + n)) :
    commentRole .default (abstracted name body) (some (macroOpened name)) span = .text := by
  obtain ⟨node, own, eq⟩ := List.mem_map.mp member
  cases node with
  | element => cases eq
  | comment own_span =>
    obtain rfl := Node.comment.inj eq
    refine commentRole_inside ?_ _
    rw [abstracted, at_comment_of_append own]
    exact apart.inner own_span own

/-- The walk through the text comes to the macro, whose body is the text that is set apart, and to nothing else. -/
theorem siblings_eq {Compiled : Type} {job : Job Compiled} (names : job.names = .default)
    (source : job.resource.source = abstracted name body) :
    Walk.siblings job none {} job.resource.source.nodes =
      (Walk.remove {} (macroOpened name).comment).register job ⟨name, none⟩ (body.asMacro name) (body.runOf name) >>=
        fun made => pure (((made.2.remove (body.runOf name)).place 0 (abstractedClosing name body).stop made.1).remove
          (abstractedClosing name body)) := by
  have opened : Walk.node job none {} (.comment (macroOpened name).comment) =
      .ok (some (macroOpened name), Walk.remove {} (macroOpened name).comment) := by
    rw [Walk.node, Walk.comment_eq, names, source, commentRole_opening]
    rfl
  have closed (w : Walk Compiled) :
      Walk.node job (some (macroOpened name)) w (.comment (abstractedClosing name body)) =
        (w.runMacro job (macroOpened name) (abstractedClosing name body)).map fun w => (none, w) := by
    rw [Walk.node, Walk.comment_eq, names, source, commentRole_closing]
  have extracted : MacroBody.ofRun (abstracted name body) (body.runOf name) 0 (job.names.name .var) none =
      body.asMacro name := by
    have cut := Text.slice_append (macroOpening name) body (macroClosing ++ interpolated name)
    rw [List.append_assoc] at cut
    exact congrArg (fun text => MacroBody.mk ([] ++ text) [⟨0, body.runOf name⟩] 0) cut
  have ran (w : Walk Compiled) : w.runMacro job (macroOpened name) (abstractedClosing name body) =
      w.register job ⟨name, none⟩ (body.asMacro name) (body.runOf name) >>= fun made =>
        pure (((made.2.remove (body.runOf name)).place 0 (abstractedClosing name body).stop made.1).remove
          (abstractedClosing name body)) := by
    have head : w.macroHead job (macroOpened name).directive (macroOpened name).value
        (macroOpened name).comment.start = .ok ⟨name, none⟩ := by
      rw [Walk.macroHead, show (macroOpened name).value = name from rfl,
        MacroHead.read_of_isIdentifier apart.identifier]
    rw [← extracted, Walk.runMacro, head, source]
    rfl
  rw [source, apart.nodes_eq, Walk.siblings, opened]
  refine (Walk.siblings_inside (by rw [names, source]; exact apart.inside) _).trans ?_
  rw [Walk.siblings, closed, ran]
  cases (Walk.remove {} (macroOpened name).comment).register job ⟨name, none⟩ (body.asMacro name)
    (body.runOf name) <;> rfl

/-- What is written is the code that binds the macro, and behind it the call. -/
theorem layout_eq (stop : Nat) : layout .default (abstracted name body) 0 stop none (abstracted name body).nodes =
    [.kept ⟨0, 0⟩, .binding (abstractedClosing name body).stop "macro" name,
      .kept ⟨(abstractedClosing name body).stop, stop⟩] := by
  rw [apart.nodes_eq, layout_comment, commentRole_opening]
  simp only [List.nil_append, layout_inside apart.inside]
  rw [layout_comment, commentRole_closing]
  rfl

variable {Compiled : Type} {parser : Parser Compiled} {stream : Bool} {depth : Nat} {resource : Resource}
  {events : List Event}

/-- If the text can be parsed and compiled, then so can the one in which it is set apart. -/
theorem parsed_of (names : parser.names = .default) (source : resource.source = abstracted name body)
    {inner : ParsedTemplate Compiled} {compiled : Compiled}
    (parsed : parser.parseWithin stream depth (resource.extract name body) = (events, .ok inner))
    (made : parser.compiler.compile inner = .ok compiled) :
    ∃ events template, parser.parseWithin stream (depth + 1) resource = (events, .ok template) := by
  let job := parser.job stream depth resource
  have walked := @siblings_eq _ _ apart _ job names source
  obtain ⟨w, registered, _⟩ := @Walk.register_of _ job (Walk.remove {} (macroOpened name).comment) ⟨name, none⟩
    (body.asMacro name) (body.runOf name) _ events inner compiled rfl parsed made
  rw [registered] at walked
  rw [Parser.parseWithin_succ, show Walk.siblings _ none {} resource.source.nodes = _ from walked]
  exact ⟨_, _, rfl⟩

/-- If the text with the macro can be parsed, then so can the text by itself. -/
theorem parsed_inversion (names : parser.names = .default) (source : resource.source = abstracted name body)
    {template : ParsedTemplate Compiled}
    (parsed : parser.parseWithin stream depth resource = (events, .ok template)) :
    ∃ below events' found, depth = below + 1 ∧
      parser.parseWithin stream below (resource.extract name body) = (events', .ok found.template) ∧
      parser.compiler.compile found.template = .ok found.compiled ∧ template.macros = [(name, found)] := by
  obtain ⟨below, w, rfl, walked, rfl⟩ := Parser.parseWithin_ok parsed
  have walk := @siblings_eq _ _ apart _ (parser.job stream below resource) names source
  obtain ⟨⟨code, w1⟩, registered, placed⟩ := ok_of_bind (walk.symm.trans walked)
  obtain rfl := Except.ok.inj placed
  obtain ⟨found, events', inner, made, macros⟩ := Walk.register_macros registered
  exact ⟨below, events', found, rfl, inner, made, macros⟩

end

end SetApart

end MarkupTemplates
