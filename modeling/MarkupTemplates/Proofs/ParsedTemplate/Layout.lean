import MarkupTemplates.ParsedTemplate.Walk

namespace MarkupTemplates

/-- What a comment among its siblings comes to. -/
inductive CommentRole where
  | text
  | statement (directive : Directive)
  | ending (name : Text)
  | opensMacro (next : OpenMacro)
  | closesMacro (opened : OpenMacro)
  deriving DecidableEq, Repr

/-- While a macro is open, no comment counts but the one that closes it and another macro comment. -/
def commentRole (names : DirectiveNames) (source : Text) (opened : Option OpenMacro) (span : Span) :
    CommentRole :=
  match CommentDirective.read? span.start (source.at span) with
  | none => .text
  | some found =>
    match names.kindOf? found.name, opened with
    | some .defineMacro, _ => .opensMacro ⟨span, found.name, found.value⟩
    | some .close, some opened => if found.value.trim = ("macro" : Text) then .closesMacro opened else .text
    | _, some _ => .text
    | some .close, none => .ending found.value.trim
    | some kind, none =>
      .statement
        { kind, name := found.name, value := found.value.trimStart.trimEnd, start := found.nameStart
          valueStart := found.valueStart + (found.value.byteSize - found.value.trimStart.byteSize) }
    | none, none => .text

/-- Statements count outside of macros alone, and only an open macro is closed. -/
theorem commentRole_ok (names : DirectiveNames) (source : Text) (opened : Option OpenMacro) (span : Span) :
    match commentRole names source opened span with
    | .text => True
    | .statement _ => opened = none
    | .ending _ => opened = none
    | .opensMacro next => next.comment = span
    | .closesMacro found => opened = some found := by
  unfold commentRole
  cases CommentDirective.read? span.start (source.at span) with
  | none => trivial
  | some found =>
    simp only
    cases names.kindOf? found.name with
    | none => cases opened <;> trivial
    | some kind =>
      cases opened with
      | none => cases kind <;> trivial
      | some opened =>
        cases kind with
        | close =>
          simp only
          by_cases own : found.value.trim = ("macro" : Text)
          · rw [if_pos own]
          · rw [if_neg own]
            trivial
        | _ => trivial

/-- The statement of an attribute. -/
def Attribute.statement (kind : DirectiveKind) (a : Attribute) : Directive :=
  { kind, name := a.name, value := Text.trim (a.value.getD []), start := a.span.start
    valueStart := a.valueStart.getD a.span.stop }

/-- An attribute with one byte of the blanks in front of it. -/
def Attribute.reach (a : Attribute) : Span := ⟨a.span.start - 1, a.span.stop⟩

/-- A part of a document with code in place of directives. Code tells how many bytes of the source it
stands for. -/
inductive Part where
  | kept (span : Span)
  | statement (length : Nat) (directive : Directive)
  | ending (length : Nat) (name : Text)
  | binding (length : Nat) (directive value : Text)
  /-- What closes the statement of an attribute, if there is anything to close. It stands for no part
  of the source. -/
  | closing (name : Text)
  /-- A macro comment that is never closed. -/
  | dropped (comment : Span)
  deriving DecidableEq, Repr

/-- A stretch of a start tag without the attributes in it that are to go. -/
def tagLayout (cursor stop : Nat) : List Attribute → List Part
  | [] => [.kept ⟨cursor, stop⟩]
  | a :: rest => .kept ⟨cursor, a.reach.start⟩ :: tagLayout a.reach.stop stop rest

mutual

/-- What an element comes to, or would come to if no macro were open. -/
def Node.layout (names : DirectiveNames) (source : Text) : Node → List Part
  | .comment span => [.kept span]
  | .element tag stop children =>
    match Walk.declarationOf? names tag with
    | some declaration => [.binding (stop - tag.span.start) declaration.name (declaration.value.getD [])]
    | none =>
      let statements := Walk.statementsOf names tag
      (statements.map fun statement =>
          .statement statement.2.reach.length (statement.2.statement statement.1)) ++
        tagLayout tag.span.start tag.span.stop (statements.map Prod.snd) ++
        layout names source tag.span.stop stop none children ++
        (statements.map fun statement => .closing statement.2.name).reverse

/-- The source from `cursor` to `stop`, where the nodes are, with code in place of the directives.
What is no directive stays as it is written, and so does everything inside a macro that is open until
the macro is closed and goes as a whole. -/
def layout (names : DirectiveNames) (source : Text) (cursor stop : Nat) (opened : Option OpenMacro) :
    List Node → List Part
  | [] =>
    match opened with
    | none => [.kept ⟨cursor, stop⟩]
    | some opened => [.dropped opened.comment, .kept ⟨cursor, stop⟩]
  | node :: rest =>
    match node, opened with
    | .comment span, opened =>
      match commentRole names source opened span with
      | .text => layout names source cursor stop opened rest
      | .statement directive =>
        .kept ⟨cursor, span.start⟩ :: .statement span.length directive ::
          layout names source span.stop stop none rest
      | .ending name =>
        .kept ⟨cursor, span.start⟩ :: .ending span.length name ::
          layout names source span.stop stop none rest
      | .opensMacro next =>
        (match opened with
          | none => []
          | some previous => [.dropped previous.comment]) ++
          .kept ⟨cursor, span.start⟩ :: layout names source span.stop stop (some next) rest
      | .closesMacro opened =>
        .binding (span.stop - opened.comment.start) opened.directive opened.value ::
          layout names source span.stop stop none rest
    | .element .., some opened => layout names source cursor stop (some opened) rest
    | .element tag elementStop _, none =>
      .kept ⟨cursor, tag.span.start⟩ :: node.layout names source ++
        layout names source elementStop stop none rest

end

namespace Part

/-- The bytes of text that is kept, or of the source that code stands for. -/
def length (source : Text) : Part → Nat
  | kept span => (source.at span).byteSize
  | statement length _ => length
  | ending length _ => length
  | binding length _ _ => length
  | closing _ => 0
  | dropped _ => 0

def isDirective : Part → Bool
  | statement .. => true
  | ending .. => true
  | binding .. => true
  | _ => false

/-- What is written for the part, and what is known of names after it. -/
def written? (dialect : Dialect) (source : Text) (symbols : SymbolTable) :
    Part → Option (Text × SymbolTable)
  | kept span => some (source.at span, symbols)
  | statement length directive =>
    match dialect.statement directive symbols with
    | .ok (code, symbols) => some (marker length code, symbols)
    | .error _ => none
  | ending length name => some (marker length (dialect.ending name), symbols)
  | binding length directive value =>
    match MacroHead.read directive value with
    | .error _ => none
    | .ok head =>
      match symbols.declare head.name templateType with
      | .ok symbols => some (marker length (dialect.binding head.name), symbols)
      | .error _ => none
  | closing name =>
    some (if dialect.ending name = [] then [] else marker 0 (dialect.ending name), symbols)
  | dropped _ => some ([], symbols)

end Part

/-- Parts written one after the other. A statement can use the names that are known by then. -/
def written? (dialect : Dialect) (source : Text) (symbols : SymbolTable) :
    List Part → Option (Text × SymbolTable)
  | [] => some ([], symbols)
  | part :: rest =>
    match part.written? dialect source symbols with
    | none => none
    | some (text, symbols) =>
      (written? dialect source symbols rest).map fun (texts, symbols) => (text ++ texts, symbols)

theorem written?_singleton (dialect : Dialect) (source : Text) (symbols : SymbolTable) (part : Part) :
    written? dialect source symbols [part] = part.written? dialect source symbols := by
  rw [written?]
  cases part.written? dialect source symbols with
  | none => rfl
  | some found => simp only [written?, Option.map_some, List.append_nil]

/-- What is written for parts in a row, one stretch after the other. -/
theorem written?_append_eq (dialect : Dialect) (source : Text) (symbols : SymbolTable) (first second : List Part) :
    written? dialect source symbols (first ++ second) =
      (written? dialect source symbols first).bind fun (s, symbols) =>
        (written? dialect source symbols second).map fun (t, symbols) => (s ++ t, symbols) := by
  induction first generalizing symbols with
  | nil => simp [written?]
  | cons part first ih =>
    rw [List.cons_append, written?, written?]
    cases part.written? dialect source symbols with
    | none => rfl
    | some found =>
      obtain ⟨text, symbols⟩ := found
      simp only [ih]
      cases written? dialect source symbols first with
      | none => rfl
      | some read =>
        obtain ⟨texts, symbols⟩ := read
        simp only [Option.bind_some, Option.map_some]
        cases written? dialect source symbols second with
        | none => rfl
        | some last => simp only [Option.map_some, List.append_assoc]

theorem written?_append {dialect : Dialect} {source : Text} {symbols between after : SymbolTable}
    {first second : List Part} {s t : Text}
    (one : written? dialect source symbols first = some (s, between))
    (two : written? dialect source between second = some (t, after)) :
    written? dialect source symbols (first ++ second) = some (s ++ t, after) := by
  simp only [written?_append_eq, one, Option.bind_some, two, Option.map_some]

/-- The total length of parts in a row. -/
def lengthOf (source : Text) : List Part → Nat
  | [] => 0
  | part :: rest => part.length source + lengthOf source rest

end MarkupTemplates
