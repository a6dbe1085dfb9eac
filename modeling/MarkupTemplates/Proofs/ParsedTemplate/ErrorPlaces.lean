import Mathlib.Data.List.Basic
import MarkupTemplates.Proofs.ParsedTemplate.Values

namespace MarkupTemplates

namespace ParseError

/-- The error is one of the source, at byte `p` of it. -/
structure At (e : ParseError) (resource : Resource) (p : Nat) : Prop where
  sourceName : e.sourceName = resource.name
  offset : e.offset = p
  row : e.row = 1 + (resource.source.takeBytes p).count '\n'
  column : e.column = 1 + ((resource.source.takeBytes p).reverse.takeWhile (· != '\n')).length
  near : e.near = excerpt (resource.source.dropBytes p)

theorem locate_at {fault : ParseFault} {resource : Resource} {p : Nat}
    (boundary : resource.source.IsBoundary p) : (locate fault resource p).At resource p := by
  have here := Text.boundaryBefore_of_isBoundary boundary
  constructor <;> simp only [locate, here]

theorem locate_self (fault : ParseFault) (resource : Resource) (offset : Nat) :
    locate fault resource (locate fault resource offset).offset = locate fault resource offset := by
  have here := Text.boundaryBefore_of_isBoundary (Text.isBoundary_boundaryBefore resource.source offset)
  simp only [locate, here]

end ParseError

namespace Walk

variable {Compiled : Type} {job : Job Compiled} {w w' : Walk Compiled}

/-- Whatever goes wrong is reported somewhere in the source that is parsed. -/
def Locates {α : Type} (job : Job Compiled) (x : Except ParseFailure α) : Prop :=
  ∀ failure, x = .error failure → ∃ fault offset, failure.error = .locate fault job.resource offset

theorem Locates.ok {α : Type} (a : α) : Locates job (.ok a) := fun _ eq => absurd eq nofun

theorem Locates.fail {α : Type} (fault : ParseFault) (offset : Nat) :
    Locates job (w.fail job fault offset : Except ParseFailure α) := by
  intro failure eq
  obtain rfl := Except.error.inj eq
  exact ⟨fault, offset, rfl⟩

theorem Locates.bind {α β : Type} {x : Except ParseFailure α} {f : α → Except ParseFailure β}
    (first : Locates job x) (second : ∀ a, Locates job (f a)) : Locates job (x >>= f) := by
  intro failure eq
  cases x with
  | error e =>
    obtain rfl := Except.error.inj (eq : (Except.error e : Except ParseFailure β) = .error failure)
    exact first e rfl
  | ok a => exact second a failure eq

theorem Locates.map {α β : Type} {x : Except ParseFailure α} {f : α → β} (first : Locates job x) :
    Locates job (x.map f) := by
  intro failure eq
  cases x with
  | error e =>
    obtain rfl := Except.error.inj eq
    exact first e rfl
  | ok a => exact absurd eq nofun

theorem locates_statement (directive : Directive) : Locates job (w.statement job directive) := by
  unfold statement
  split
  · exact .ok _
  · exact .fail _ _

theorem locates_macroHead (directive value : Text) (start : Nat) :
    Locates job (w.macroHead job directive value start) := by
  unfold macroHead
  split
  · exact .ok _
  · exact .fail _ _

theorem locates_register (head : MacroHead) (body : MacroBody) (span : Span) :
    Locates job (w.register job head body span) := by
  unfold register
  split
  · exact .fail _ _
  · simp only
    split
    · exact .fail _ _
    · split
      · exact .fail _ _
      · exact .ok _

theorem locates_comment (opened : Option OpenMacro) (span : Span) :
    Locates job (w.comment job opened span) := by
  rw [comment_eq]
  split
  · exact .ok _
  · exact (locates_statement _).bind fun _ => .ok _
  · exact .ok _
  · exact .ok _
  · exact ((locates_macroHead _ _ _).bind fun _ => (locates_register _ _ _).bind fun _ => .ok _).map

theorem locates_statementAttributes (tag : Tag) (statements : List (DirectiveKind × Attribute)) :
    Locates job (statementAttributes job tag statements w) := by
  induction statements generalizing w with
  | nil => exact .ok _
  | cons statement rest ih =>
    exact ((locates_statement _).bind fun _ => .ok _).bind fun _ => ih

theorem locates_siblings (opened : Option OpenMacro) (nodes : List Node) :
    Locates job (siblings job opened w nodes) := by
  induction nodes using row_induction generalizing opened w with
  | nil =>
    cases opened with
    | none => exact .ok _
    | some opened => exact .fail _ _
  | comment span rest ih =>
    rw [siblings, node]
    exact (locates_comment opened span).bind fun _ => ih _
  | element tag stop children rest ihChildren ih =>
    rw [siblings]
    refine .bind ?_ fun _ => ih _
    rw [node]
    cases opened with
    | some opened => exact .ok _
    | none =>
      simp only [Option.isSome_none, Bool.false_eq_true, if_false]
      split
      · exact ((locates_macroHead _ _ _).bind fun _ => (locates_register _ _ _).bind fun _ => .ok _).bind
          fun _ => .ok _
      · exact (locates_statementAttributes _ _).bind fun _ => (ihChildren none).bind fun _ => .ok _

end Walk

theorem Walk.advance_of_opens {Compiled : Type} {job : Job Compiled} {w : Walk Compiled}
    {opened : Option OpenMacro} {found : OpenMacro} {span : Span} {nodes : List Node} {rest : List Duty}
    (role : commentRole job.names job.resource.source opened span = .opensMacro found) :
    w.advance job rest (.row opened (.comment span :: nodes)) =
      .ok ((w.gaveWay job opened found).remove span, .row (some found) nodes :: rest) := by
  rw [advance, comment_eq, role]
  rfl

namespace Parser

variable {Compiled : Type} {parser : Parser Compiled} {stream : Bool} {limit depth : Nat}
  {top resource : Resource}

theorem parseWithin_locates {e : ParseError}
    (failed : (parser.parseWithin stream depth resource).2 = .error e) :
    e = .locate e.fault resource e.offset := by
  suffices located : ∃ fault offset, e = .locate fault resource offset by
    obtain ⟨fault, offset, rfl⟩ := located
    exact (ParseError.locate_self fault resource offset).symm
  cases depth with
  | zero => exact ⟨_, _, (Except.error.inj failed).symm⟩
  | succ depth =>
    rw [parseWithin_succ] at failed
    split at failed
    · next failure walked =>
      obtain rfl := Except.error.inj failed
      exact Walk.locates_siblings none resource.source.nodes failure walked
    · exact absurd failed nofun

/-- Where a step of the walk fails, the parse fails. -/
theorem parseWithin_of_stuck {requests : List Request} {w : Walk Compiled} {duty : Duty} {rest : List Duty}
    {failure : ParseFailure}
    (run : Walk.Runs (parser.job stream depth resource) {} [.row none resource.source.nodes] requests w
      (duty :: rest))
    (stuck : w.advance (parser.job stream depth resource) rest duty = .error failure) :
    (parser.parseWithin stream (depth + 1) resource).2 = .error failure.error := by
  have same := run.dischargeAll
  rw [Walk.dischargeAll_advance duty, stuck] at same
  have walked : Walk.siblings (parser.job stream depth resource) none {} resource.source.nodes =
      .error failure := by
    rw [Walk.dischargeAll, Walk.discharge] at same
    cases all : Walk.siblings (parser.job stream depth resource) none {} resource.source.nodes with
    | error e =>
      rw [all] at same
      exact same
    | ok w =>
      rw [all] at same
      exact absurd (show Except.ok w = Except.error failure from same) (by simp)
  rw [parseWithin_succ, walked]

/-- While `top` is parsed, `resource` is parsed, which is itself or the body of a macro in it, at any depth
of macros in macros. The character at byte `o` of the resource was copied from byte `p` of `top`. -/
inductive Copied (parser : Parser Compiled) (stream : Bool) (limit : Nat) (top : Resource) :
    Nat → Resource → Nat → Nat → Prop
  | top {p : Nat} {c : Char} : Stands top.source p [c] → Copied parser stream limit top limit top p p
  | body {depth o m p : Nat} {resource : Resource} {requests : List Request} {w : Walk Compiled}
      {duty : Duty} {rest : List Duty} {head : MacroHead} {body : MacroBody} {segments : List Segment}
      {symbols : SymbolTable} :
      Copied parser stream limit top (depth + 1) resource m p →
      Walk.Runs (parser.job stream depth resource) {} [.row none resource.source.nodes] requests w
        (duty :: rest) →
      duty.Extracts parser.names resource.source head body segments →
      w.symbols.declare head.name templateType = .ok symbols →
      CopiedFrom resource.source segments o m →
      Copied parser stream limit top depth (resource.extract head.name body.text) o p

variable {o p : Nat}

/-- Copied characters are the same in both sources. -/
theorem Copied.character (copied : parser.Copied stream limit top depth resource o p) :
    ∃ c, Stands resource.source o [c] ∧ Stands top.source p [c] := by
  induction copied with
  | top stands => exact ⟨_, stands, stands⟩
  | @body depth o m p resource _ w duty rest head body segments _ _ run extracts _ from_source ih =>
    obtain ⟨c, outer, atTop⟩ := ih
    have here := run.from_roots duty List.mem_cons_self
    obtain ⟨d, inBody, inSource⟩ := from_source.character fun span member => extracts.within here member
    obtain rfl := outer.unique inSource
    refine ⟨c, ?_, atTop⟩
    show Stands body.text o [c]
    rw [extracts.madeUp.text]
    exact inBody

/-- A fault at a character that was copied is reported at that character of the outermost source. -/
theorem Copied.fails {fault : ParseFault} (copied : parser.Copied stream limit top depth resource o p)
    (failed : (parser.parseWithin stream depth resource).2 = .error (.locate fault resource o)) :
    (parser.parseWithin stream limit top).2 = .error (.locate fault top p) := by
  induction copied with
  | top => exact failed
  | @body depth o m p resource _ w duty rest head body segments _ outer run extracts declared from_source ih =>
    have here := run.from_roots duty List.mem_cons_self
    obtain ⟨c, inBody, _⟩ := (Copied.body outer run extracts declared from_source).character
    obtain ⟨events, stuck⟩ := Walk.advance_of_failed (parser.job stream depth resource) rest
      extracts declared failed
    have offset : body.sourceOffset (ParseError.locate fault (resource.extract head.name body.text) o).offset =
        m := by
      rw [(ParseError.locate_at inBody.atStart).offset]
      exact sourceOffset_of_copied extracts.madeUp.pieces from_source fun span member =>
        extracts.within here member
    rw [offset] at stuck
    exact ih (parseWithin_of_stuck run stuck)

end Parser

/-- An error in the body of a macro, however deep macros are nested, is reported in the outermost source,
at the character that the body has at the error, if it was copied from there. So a statement that the
dialect refuses is reported where its value is written. -/
theorem body_error_in_source {Compiled : Type} {parser : Parser Compiled} {stream : Bool} {top : Resource} :
    (∀ depth resource (e : ParseError) p,
      parser.Copied stream (parser.depthBound top) top depth resource e.offset p →
      (parser.parseWithin stream depth resource).2 = .error e →
      ∃ reported, (parser.parse stream top).2 = .error reported ∧ reported.fault = e.fault ∧
        reported.At top p ∧ ∃ c, Stands resource.source e.offset [c] ∧ Stands top.source p [c]) ∧
    (∀ depth resource requests (w : Walk Compiled) duty rest directive message p,
      parser.Copied stream (parser.depthBound top) top (depth + 1) resource directive.valueStart p →
      Walk.Runs (parser.job stream depth resource) {} [.row none resource.source.nodes] requests w
        (duty :: rest) →
      duty.requests parser.names resource.source = [.statement directive] → duty.hasValue = true →
      parser.dialect.statement directive w.symbols = .error { message } →
      ValueWritten resource.source directive ∧
        ∃ reported, (parser.parse stream top).2 = .error reported ∧
          reported.fault = .invalidDirective directive.name directive.value message ∧ reported.At top p) := by
  constructor
  · intro depth resource e p copied failed
    obtain ⟨c, inBody, inSource⟩ := copied.character
    rw [Parser.parseWithin_locates failed] at failed
    exact ⟨_, copied.fails failed, rfl, ParseError.locate_at inSource.atStart, c, inBody, inSource⟩
  · intro depth resource requests w duty rest directive message p copied run asks hasValue refused
    obtain ⟨_, _, inSource⟩ := copied.character
    have here := run.from_roots duty List.mem_cons_self
    have stuck := Walk.advance_of_refused (parser.job stream depth resource) rest directive asks refused
    exact ⟨Duty.valueWritten here asks hasValue, _, copied.fails (parser.parseWithin_of_stuck run stuck), rfl,
      ParseError.locate_at inSource.atStart⟩

/-- A parser whose dialect has no code for one value. -/
def Parser.refusing (value : Text) : Parser Unit where
  names := .default
  dialect := ⟨fun directive symbols =>
    if directive.value = value then .error { message := "refused" } else .ok (directive.value, symbols), id, id⟩
  compiler := ⟨fun _ => .ok ()⟩

/-- A statement on an element that is a macro with a parameter, between the comments of another macro. -/
theorem body_error_in_source_of_nested_macros :
    let parser := Parser.refusing "bad"
    let top : Resource :=
      { name := "t", source := "é<!--macro='m'-->\n<i macro='n(y)' else='bad'/><!--end='macro'-->" }
    let run := top.extract "m" "\n<i macro='n(y)' else='bad'/>"
    let element := run.extract "n" "<i var=\"y\" else='bad'/>"
    parser.Copied false (parser.depthBound top) top 258 element 17 41 ∧
      (∃ e, (parser.parseWithin false 258 element).2 = .error e ∧ e.offset = 17 ∧
        ∃ reported, (parser.parse false top).2 = .error reported ∧ reported.fault = e.fault ∧
          reported.At top 41) ∧
      ValueWritten element.source ⟨.otherwise, "else", "bad", 11, 17⟩ ∧
      ∃ reported, (parser.parse false top).2 = .error reported ∧
        reported.fault = .invalidDirective "else" "bad" "refused" ∧ reported.At top 41 := by
  intro parser top run element
  have bound : parser.depthBound top = 260 := by decide +kernel
  let opened : OpenMacro := ⟨⟨2, 18⟩, "macro", "m"⟩
  let declaration : Attribute := ⟨"macro", some "n(y)", ⟨4, 16⟩, some 11⟩
  let outer : Tag := ⟨"i", [declaration, ⟨"else", some "bad", ⟨17, 27⟩, some 23⟩], ⟨1, 29⟩⟩
  let parameter : Attribute := ⟨"var", some "y", ⟨3, 10⟩, some 8⟩
  let refused : Attribute := ⟨"else", some "bad", ⟨11, 21⟩, some 17⟩
  let inner : Tag := ⟨"i", [parameter, refused], ⟨0, 23⟩⟩
  have topNodes : ∃ tag, top.source.nodes = [.comment ⟨2, 18⟩, .element tag 47 [], .comment ⟨47, 65⟩] :=
    ⟨⟨"i", [⟨"macro", some "n(y)", ⟨22, 34⟩, some 29⟩, ⟨"else", some "bad", ⟨35, 45⟩, some 41⟩], ⟨19, 47⟩⟩,
      by decide +kernel⟩
  have runNodes : run.source.nodes = [.element outer 29 []] := by decide +kernel
  have elementNodes : element.source.nodes = [.element inner 23 []] := by decide +kernel
  obtain ⟨tag, topNodes⟩ := topNodes
  have opens : commentRole parser.names top.source none ⟨2, 18⟩ = .opensMacro opened := by decide +kernel
  have closes : commentRole parser.names top.source (some opened) ⟨47, 65⟩ = .closesMacro opened := by
    decide +kernel
  -- the walk through the source comes to the comment that closes the macro
  have inTop : ∃ requests, Walk.Runs (parser.job false 259 top) {} [.row none top.source.nodes] requests
      (({} : Walk Unit).remove ⟨2, 18⟩) [.row (some opened) [.comment ⟨47, 65⟩]] := by
    rw [topNodes]
    exact ⟨_, .step (Walk.advance_of_opens opens) (.step rfl .done)⟩
  have atRun : parser.Copied false (parser.depthBound top) top 259 run 23 41 := by
    obtain ⟨_, steps⟩ := inTop
    have inSource : Stands top.source 41 ['b'] :=
      ⟨"é<!--macro='m'-->\n<i macro='n(y)' else='", "ad'/><!--end='macro'-->", by decide +kernel, by decide +kernel⟩
    have copied : CopiedFrom top.source (MacroBody.runSegments ⟨18, 47⟩ "var" none) 23 41 :=
      ⟨[.made []], ⟨18, 47⟩, [], "\n<i macro='n(y)' else='", 'b', "ad'/>", rfl, by decide +kernel,
        by decide +kernel, by decide +kernel⟩
    have reached := Parser.Copied.body (.top inSource) steps (.run closes
      (show MacroHead.read _ _ = .ok ⟨"m", none⟩ by decide +kernel)) rfl copied
    have same : top.extract "m" (MacroBody.ofRun top.source ⟨18, 47⟩ 2 "var" none).text = run := by
      decide +kernel
    rw [bound, ← same]
    exact reached
  -- the body of that macro is another one
  have atElement : parser.Copied false (parser.depthBound top) top 258 element 17 41 := by
    have copied : CopiedFrom run.source
        (MacroBody.elementSegments outer 29 declaration "var" (some "y")) 17 23 :=
      ⟨[.copied ⟨1, 3⟩, .made " var=\"y\""], ⟨16, 29⟩, [], " else='", 'b', "ad'/>", rfl, by decide +kernel,
        by decide +kernel, by decide +kernel⟩
    have start : Walk.Runs (parser.job false 258 run) {} [.row none run.source.nodes] [] {}
        [.row none [.element outer 29 []]] := by
      rw [runNodes]
      exact .done
    have reached := Parser.Copied.body atRun start (.element (by decide +kernel)
      (show MacroHead.read _ _ = .ok ⟨"n", some "y"⟩ by decide +kernel)) rfl copied
    have same : run.extract "n" (MacroBody.ofElement run.source outer 29 declaration "var" (some "y")).text =
        element := by decide +kernel
    rw [← same]
    exact reached
  -- and there the dialect refuses the second statement
  have inElement : ∃ requests w rest, Walk.Runs (parser.job false 257 element) {}
      [.row none element.source.nodes] requests w (.statement inner .otherwise refused :: rest) := by
    rw [elementNodes]
    exact ⟨_, _, _, .step rfl (.step rfl .done)⟩
  obtain ⟨_, _, _, steps⟩ := inElement
  let e : ParseError := .locate (.invalidDirective "else" "bad" "refused") element 17
  have failed : (parser.parseWithin false 258 element).2 = .error e := Parser.parseWithin_of_stuck steps
    (Walk.advance_of_refused _ _ (refused.statement .otherwise) (e := ⟨"refused", none⟩) rfl rfl)
  have offset : e.offset = 17 := by decide +kernel
  have atError : parser.Copied false (parser.depthBound top) top 258 element e.offset 41 := by rwa [offset]
  obtain ⟨reported, same, fault, place, _⟩ := body_error_in_source.1 258 element e 41 atError failed
  exact ⟨atElement, ⟨e, failed, offset, reported, same, fault, place⟩,
    body_error_in_source.2 257 element _ _ _ _ (refused.statement .otherwise) "refused" 41 atElement steps
      rfl rfl rfl⟩

end MarkupTemplates
