import MarkupTemplates.Proofs.Markup.CheckedReading
import MarkupTemplates.Proofs.ParsedTemplate.Values

namespace MarkupTemplates

theorem Span.Within.checkedAt {source : Text} {span : Span} (within : span.Within source) :
    source.checkedAt span = some (source.at span) :=
  Text.checkedSlice_eq within.forward within.atStart within.atStop

/-- Reads a comment as a directive, with the value cut out of the comment where it begins. -/
def CommentDirective.checkedRead (start : Nat) (comment : Text) : Option (Option CommentDirective) :=
  match read? start comment with
  | none => some none
  | some found => do
    let inner ← comment.checkedSlice (← checkedMinus found.valueStart start) comment.byteSize
    let value ← inner.checkedSlice 0 found.value.byteSize
    return some { found with value }

theorem CommentDirective.checkedRead_eq (start : Nat) (comment : Text) :
    checkedRead start comment = some (read? start comment) := by
  rw [checkedRead]
  cases read : read? start comment with
  | none => rfl
  | some found =>
    obtain ⟨before, mark, mark', after, rfl, quote, _, place⟩ := read?_written read
    have one : Text.byteSize [mark] = 1 := by
      rw [Text.byteSize_cons, Text.byteSize_nil, utf8Size_of_isQuote quote]
    have behind : Text.byteSize (before ++ [mark]) = found.valueStart - start := by
      rw [Text.byteSize_append, one]
      omega
    have inner := Text.checkedSlice_back (before ++ [mark]) (found.value ++ mark' :: after)
    rw [List.append_assoc, List.singleton_append, behind] at inner
    simp only [checkedMinus_eq (show start ≤ found.valueStart by omega), Option.bind_eq_bind, Option.bind_some, inner,
      Text.checkedSlice_front]
    rfl

/-- The name and the parameters, cut out on both sides of the parenthesis. -/
def MacroHead.checkedSplit (declaration : Text) : Option (Option (Text × Text)) :=
  match declaration.position? '(' with
  | some parenthesis =>
    if parenthesis = 0 then some (some (declaration, []))
    else do
      let inner ← declaration.checkedSlice (parenthesis + 1) declaration.byteSize
      match Text.before? [')'] inner with
      | none => return none
      | some parameters => return some ((← declaration.checkedSlice 0 parenthesis).trim, parameters.trim)
  | none => some (some (declaration, []))

theorem MacroHead.checkedSplit_eq (declaration : Text) : checkedSplit declaration = some (split declaration) := by
  rw [checkedSplit, split]
  by_cases member : '(' ∈ declaration
  · obtain ⟨name, inner, rfl, apart⟩ := List.eq_append_cons_of_mem member
    rw [Text.position?_eq apart, Scan.cutAt?_append inner apart]
    simp only
    by_cases none : name = []
    · rw [if_pos none, if_pos (by rw [none]; rfl)]
    · have behind := Text.checkedSlice_back (name ++ ['(']) inner
      rw [Text.byteSize_append, List.append_assoc] at behind
      have cut : Text.checkedSlice (name ++ '(' :: inner) (Text.byteSize name + 1)
          (Text.byteSize (name ++ '(' :: inner)) = some inner := behind
      have room := Text.byteSize_pos none
      rw [if_neg none, if_neg (by omega), cut, Text.checkedSlice_front]
      simp only [Option.bind_eq_bind, Option.bind_some]
      cases Text.before? [')'] inner <;> rfl
  · rw [Text.position?_of_not_mem member, Text.cutAt?_of_not_mem member]

/-- The declaration in the value of a directive, with its parts cut out. -/
def MacroHead.checkedRead (directive value : Text) : Option (Except ParseFault MacroHead) := do
  match ← checkedSplit value.trim with
  | none => return .error (.invalidMacroParameters directive value)
  | some (name, parameters) =>
    if name = [] then return .error (.missingMacroName directive value)
    else if name.isIdentifier then return .ok ⟨name, if parameters = [] then none else some parameters⟩
    else return .error (.invalidMacroName directive name value)

theorem MacroHead.checkedRead_eq (directive value : Text) :
    checkedRead directive value = some (read directive value) := by
  rw [checkedRead, checkedSplit_eq, read]
  simp only [Option.bind_eq_bind, Option.bind_some]
  cases split value.trim with
  | none => rfl
  | some parts =>
    obtain ⟨name, parameters⟩ := parts
    simp only
    split
    · rfl
    · split <;> rfl

namespace ParseError

/-- What an error shows of the source, cut off at the byte where the first character begins that is not shown. -/
def checkedExcerpt (t : Text) : Option Text :=
  if t.length ≤ nearLength then some t.quoted
  else (t.checkedSlice 0 (Text.byteSize (t.take nearLength))).map fun shown => shown.quoted ++ ("..." : Text)

/-- The fault at the last boundary before a position, which is looked for from there back. -/
def checkedLocate (fault : ParseFault) (resource : Resource) (offset : Nat) : Option ParseError := do
  let source := resource.source
  let offset ← source.checkedBoundary (min offset source.byteSize)
  let before := source.takeBytes offset
  return { fault
           sourceName := resource.name
           offset
           row := 1 + before.count '\n'
           column := 1 + (before.reverse.takeWhile (· != '\n')).length
           near := ← checkedExcerpt (← source.checkedSlice offset source.byteSize) }

theorem checkedExcerpt_eq (t : Text) : checkedExcerpt t = some (excerpt t) := by
  have cut := Text.checkedSlice_front (t.take nearLength) (t.drop nearLength)
  rw [List.take_append_drop] at cut
  rw [checkedExcerpt, excerpt, cut]
  split <;> rfl

theorem checkedLocate_eq (fault : ParseFault) (resource : Resource) (offset : Nat) :
    checkedLocate fault resource offset = some (locate fault resource offset) := by
  have boundary := resource.source.isBoundary_boundaryBefore offset
  obtain ⟨before, after, split, size⟩ := id boundary
  have cut := Text.checkedSlice_back before after
  have rest := Text.dropBytes_append before after
  rw [← split, size] at cut rest
  simp only [checkedLocate, Text.checkedBoundary_eq, Text.boundaryBefore_min, Option.bind_eq_bind, Option.bind_some, cut,
    checkedExcerpt_eq]
  rw [locate, rest]
  rfl

end ParseError

namespace MacroBody

/-- Whether a piece of a body has the byte, which is counted from the start of the piece. -/
def checkedHolds (offset : Nat) (piece : Excerpt) : Option Bool :=
  if piece.start ≤ offset then (checkedMinus offset piece.start).map (· < piece.span.length) else some false

/-- Where the enclosing source has what the body has at a byte. -/
def checkedOffset (body : MacroBody) (offset : Nat) : Option Nat := do
  match ← body.pieces.findM? (checkedHolds offset) with
  | some piece => return piece.span.start + (← checkedMinus offset piece.start)
  | none =>
    match body.pieces.getLast? with
    | some piece =>
      if piece.start + piece.span.length ≤ offset then return piece.span.start + piece.span.length
      else return body.declaration
    | none => return body.declaration

theorem checkedHolds_eq (offset : Nat) (piece : Excerpt) : checkedHolds offset piece =
    some (piece.start ≤ offset && offset - piece.start < piece.span.length) := by
  rw [checkedHolds]
  split
  · next ordered => rw [checkedMinus_eq ordered]; simp [ordered]
  · next behind => simp [behind]

theorem checkedOffset_eq (body : MacroBody) (offset : Nat) :
    body.checkedOffset offset = some (body.sourceOffset offset) := by
  have search (pieces : List Excerpt) : pieces.findM? (checkedHolds offset) =
      some (pieces.find? fun piece => piece.start ≤ offset && offset - piece.start < piece.span.length) := by
    induction pieces with
    | nil => rfl
    | cons piece pieces ih =>
      rw [List.findM?, checkedHolds_eq, List.find?_cons, ih]
      cases (piece.start ≤ offset && offset - piece.start < piece.span.length : Bool) <;> rfl
  rw [checkedOffset, search, sourceOffset]
  simp only [Option.bind_eq_bind, Option.bind_some]
  cases found : body.pieces.find? fun piece => piece.start ≤ offset && offset - piece.start < piece.span.length with
  | some piece =>
    have holds := List.find?_some found
    simp only [Bool.and_eq_true, decide_eq_true_eq] at holds
    simp only [checkedMinus_eq holds.1, Option.bind_some]
    rfl
  | none =>
    simp only
    cases body.pieces.getLast? with
    | none => rfl
    | some piece =>
      simp only
      split <;> rfl

/-- The element as the text of a macro, with the stretches that it is made up of measured and cut out. -/
def checkedOfElement (source : Text) (tag : Tag) (stop : Nat) (declaration : Attribute) (var : Text)
    (parameters : Option Text) : Option MacroBody := do
  let head : Span := ⟨tag.span.start, max (declaration.span.start - 1) tag.span.start⟩
  let tail : Span := ⟨declaration.span.stop, stop⟩
  let _room ← checkedMinus stop tag.span.start
  let declared := match parameters with
    | some parameters => ' ' :: var ++ ('=' :: '"' :: attributeQuoted parameters) ++ ['"']
    | none => []
  let before := (← source.checkedAt head) ++ declared
  let _length ← checkedMinus tail.stop tail.start
  return { text := before ++ (← source.checkedAt tail)
           pieces := [⟨0, head⟩, ⟨Text.byteSize before, tail⟩]
           declaration := declaration.span.start }

/-- What stands between two comments as the text of a macro, measured and cut out. -/
def checkedOfRun (source : Text) (run : Span) (declaration : Nat) (var : Text) (parameters : Option Text) :
    Option MacroBody := do
  let _room ← checkedMinus run.stop run.start
  let declared := match parameters with
    | some parameters => ("<!--" : Text) ++ var ++ '=' :: commentQuoted parameters ++ ("-->" : Text)
    | none => []
  return { text := declared ++ (← source.checkedAt run)
           pieces := [⟨Text.byteSize declared, run⟩]
           declaration }

theorem checkedOfElement_eq {source : Text} {tag : Tag} {stop : Nat} {declaration : Attribute} {var : Text}
    {parameters : Option Text} (forward : tag.span.start ≤ stop)
    (within : ∀ span, .copied span ∈ elementSegments tag stop declaration var parameters → span.Within source) :
    checkedOfElement source tag stop declaration var parameters =
      some (ofElement source tag stop declaration var parameters) := by
  have head := within ⟨tag.span.start, max (declaration.span.start - 1) tag.span.start⟩ List.mem_cons_self
  have tail := within ⟨declaration.span.stop, stop⟩ (by simp [elementSegments])
  unfold checkedOfElement
  simp only [checkedMinus_eq forward, checkedMinus_eq tail.forward, head.checkedAt, tail.checkedAt]
  rfl

theorem checkedOfRun_eq {source : Text} {run : Span} {declaration : Nat} {var : Text} {parameters : Option Text}
    (within : run.Within source) :
    checkedOfRun source run declaration var parameters = some (ofRun source run declaration var parameters) := by
  unfold checkedOfRun
  simp only [checkedMinus_eq within.forward, within.checkedAt]
  rfl

end MacroBody

/-- What a comment among its siblings comes to, with the comment cut out of the source. -/
def checkedRole (names : DirectiveNames) (source : Text) (opened : Option OpenMacro) (span : Span) :
    Option CommentRole := do
  match ← CommentDirective.checkedRead span.start (← source.checkedAt span) with
  | none => return .text
  | some found =>
    match names.kindOf? found.name, opened with
    | some .defineMacro, _ => return .opensMacro ⟨span, found.name, found.value⟩
    | some .close, some opened => return if found.value.trim = ("macro" : Text) then .closesMacro opened else .text
    | _, some _ => return .text
    | some .close, none => return .ending found.value.trim
    | some kind, none =>
      let passed ← checkedMinus found.value.byteSize found.value.trimStart.byteSize
      return .statement
        { kind, name := found.name, value := found.value.trimStart.trimEnd, start := found.nameStart
          valueStart := found.valueStart + passed }
    | none, none => return .text

theorem checkedRole_eq {names : DirectiveNames} {source : Text} (opened : Option OpenMacro) {span : Span}
    (within : span.Within source) :
    checkedRole names source opened span = some (commentRole names source opened span) := by
  have shorter (value : Text) : value.trimStart.byteSize ≤ value.byteSize := by
    obtain ⟨blanks, split, _⟩ := trimStart_split value
    rw [congrArg Text.byteSize split, Text.byteSize_append]
    exact Nat.le_add_left ..
  rw [checkedRole, within.checkedAt, commentRole]
  simp only [Option.bind_eq_bind, Option.bind_some, CommentDirective.checkedRead_eq]
  cases CommentDirective.read? span.start (source.at span) with
  | none => rfl
  | some found =>
    simp only [checkedMinus_eq (shorter found.value)]
    cases names.kindOf? found.name with
    | none => cases opened <;> rfl
    | some kind => cases opened <;> cases kind <;> rfl

end MarkupTemplates
