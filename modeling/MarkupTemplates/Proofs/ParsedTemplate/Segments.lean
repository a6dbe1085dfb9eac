import MarkupTemplates.ParsedTemplate.MacroBody
import MarkupTemplates.Proofs.ParsedTemplate.ElementBody

namespace MarkupTemplates

/-- A piece of the text of a macro: taken from the enclosing source, or made up. -/
inductive Segment where
  | copied (span : Span)
  | made (text : Text)

def Segment.text (source : Text) : Segment → Text
  | copied span => source.at span
  | made text => text

/-- The text that segments make up. -/
def pieced (source : Text) (segments : List Segment) : Text := segments.flatMap (Segment.text source)

/-- The character at byte `o` of what segments make up was taken from the source, where it stands at
byte `m`. -/
def CopiedFrom (source : Text) (segments : List Segment) (o m : Nat) : Prop :=
  ∃ before span after first c second, segments = before ++ .copied span :: after ∧
    source.at span = first ++ c :: second ∧ o = (pieced source before).byteSize + Text.byteSize first ∧
    m = span.start + Text.byteSize first

/-- A stretch between two boundaries of the source. -/
structure Span.Within (span : Span) (source : Text) : Prop where
  atStart : source.IsBoundary span.start
  atStop : source.IsBoundary span.stop
  forward : span.start ≤ span.stop

/-- The stretches that were taken from the source, with the places they have in the text made up. -/
def excerpts (source : Text) (start : Nat) : List Segment → List Excerpt
  | [] => []
  | .copied span :: rest => ⟨start, span⟩ :: excerpts source (start + (source.at span).byteSize) rest
  | .made text :: rest => excerpts source (start + text.byteSize) rest

variable {source : Text} {segments : List Segment} {o m : Nat}

theorem pieced_append (first second : List Segment) :
    pieced source (first ++ second) = pieced source first ++ pieced source second := List.flatMap_append

theorem Span.Within.length {span : Span} (within : span.Within source) :
    (source.at span).byteSize = span.length :=
  Text.byteSize_slice within.atStart within.atStop within.forward

theorem Span.Within.stands {span : Span} (within : span.Within source) :
    Stands source span.start (source.at span) := by
  obtain ⟨before, middle, after, eq, size, size'⟩ := within.atStart.split within.atStop within.forward
  have here : source.at span = middle := by
    rw [Text.at, ← size, ← size', eq, Text.slice_append]
  rw [here]
  exact ⟨before, after, eq, size⟩

theorem Stands.unique {c d : Char} (one : Stands source o [c]) (two : Stands source o [d]) : c = d := by
  obtain ⟨before, after, eq, size⟩ := one
  obtain ⟨before', after', eq', size'⟩ := two
  rw [eq, List.append_assoc, List.append_assoc] at eq'
  obtain ⟨_, rest⟩ := Text.append_inj_of_byteSize eq' (size.trans size'.symm)
  exact (List.cons.inj rest).1

/-- A character that was copied is the same in both texts. -/
theorem CopiedFrom.character (copied : CopiedFrom source segments o m)
    (within : ∀ span, .copied span ∈ segments → span.Within source) :
    ∃ c, Stands (pieced source segments) o [c] ∧ Stands source m [c] := by
  obtain ⟨before, span, after, first, c, second, rfl, split, rfl, rfl⟩ := copied
  have stands := (within span (by simp)).stands
  rw [split, ← List.singleton_append] at stands
  refine ⟨c, ⟨pieced source before ++ first, second ++ pieced source after, ?_, ?_⟩, stands.right.left⟩
  · rw [pieced_append, ← List.singleton_append, pieced_append]
    have own : pieced source [.copied span] = first ++ c :: second := by
      rw [← split]
      exact List.append_nil _
    rw [own]
    simp only [List.append_assoc, List.cons_append, List.nil_append]
  · rw [Text.byteSize_append]

theorem find?_excerpts (start : Nat) (copied : CopiedFrom source segments o m)
    (within : ∀ span, .copied span ∈ segments → span.Within source) :
    ∃ piece, (excerpts source start segments).find? (fun piece =>
        piece.start ≤ start + o && start + o - piece.start < piece.span.length) = some piece ∧
      piece.span.start + (start + o - piece.start) = m := by
  obtain ⟨before, span, after, first, c, second, rfl, split, rfl, rfl⟩ := copied
  induction before generalizing start with
  | nil =>
    have length := (within span (by simp)).length
    have one := c.utf8Size_pos
    rw [split, Text.byteSize_append, Text.byteSize_cons] at length
    have none : (pieced source []).byteSize = 0 := rfl
    simp only [none, Nat.zero_add]
    refine ⟨⟨start, span⟩, ?_, by simp only; omega⟩
    rw [List.nil_append, excerpts]
    refine List.find?_cons_of_pos ?_
    simp only [Bool.and_eq_true, decide_eq_true_eq]
    omega
  | cons segment before ih =>
    obtain ⟨piece, found, here⟩ := ih (start + (segment.text source).byteSize)
      (fun span member => within span (List.mem_cons_of_mem _ member))
    have shift : ∀ n, start + ((pieced source (segment :: before)).byteSize + n) =
        start + (segment.text source).byteSize + ((pieced source before).byteSize + n) := by
      intro n
      rw [← List.singleton_append, pieced_append, Text.byteSize_append]
      simp only [pieced, List.flatMap_singleton]
      omega
    refine ⟨piece, ?_, by rw [shift]; exact here⟩
    simp only [shift]
    cases segment with
    | made text => exact found
    | copied other =>
      have length : (Segment.text source (.copied other)).byteSize = other.length :=
        (within other List.mem_cons_self).length
      rw [List.cons_append, excerpts, List.find?_cons_of_neg]
      · exact found
      · simp only [Bool.and_eq_true, decide_eq_true_eq]
        omega

/-- An offset in the body of a macro leads back to where its character was copied from. -/
theorem sourceOffset_of_copied {body : MacroBody} (pieces : body.pieces = excerpts source 0 segments)
    (copied : CopiedFrom source segments o m)
    (within : ∀ span, .copied span ∈ segments → span.Within source) : body.sourceOffset o = m := by
  obtain ⟨piece, found, here⟩ := find?_excerpts 0 copied within
  rw [Nat.zero_add] at here
  simp only [Nat.zero_add] at found
  rw [MacroBody.sourceOffset, pieces]
  simp only [found]
  exact here

namespace MacroBody

/-- The text that declares the parameters of an element. -/
def madeAttribute (var : Text) : Option Text → Text
  | some parameters => ' ' :: var ++ ('=' :: '"' :: attributeQuoted parameters) ++ ['"']
  | none => []

/-- The text that declares the parameters of nodes in a row. -/
def madeComment (var : Text) : Option Text → Text
  | some parameters => ("<!--" : Text) ++ var ++ '=' :: commentQuoted parameters ++ ("-->" : Text)
  | none => []

def elementSegments (tag : Tag) (stop : Nat) (declaration : Attribute) (var : Text)
    (parameters : Option Text) : List Segment :=
  [.copied ⟨tag.span.start, max (declaration.span.start - 1) tag.span.start⟩,
    .made (madeAttribute var parameters), .copied ⟨declaration.span.stop, stop⟩]

def runSegments (run : Span) (var : Text) (parameters : Option Text) : List Segment :=
  [.made (madeComment var parameters), .copied run]

/-- The body is made up of the segments, and knows where they come from. -/
structure MadeUp (source : Text) (body : MacroBody) (segments : List Segment) : Prop where
  text : body.text = pieced source segments
  pieces : body.pieces = excerpts source 0 segments

theorem ofElement_madeUp (source : Text) (tag : Tag) (stop : Nat) (declaration : Attribute) (var : Text)
    (parameters : Option Text) : (ofElement source tag stop declaration var parameters).MadeUp source
      (elementSegments tag stop declaration var parameters) := by
  suffices both : (ofElement source tag stop declaration var parameters).text =
        source.at ⟨tag.span.start, max (declaration.span.start - 1) tag.span.start⟩ ++
          madeAttribute var parameters ++ source.at ⟨declaration.span.stop, stop⟩ ∧
      (ofElement source tag stop declaration var parameters).pieces =
        [⟨0, ⟨tag.span.start, max (declaration.span.start - 1) tag.span.start⟩⟩,
          ⟨Text.byteSize (source.at ⟨tag.span.start, max (declaration.span.start - 1) tag.span.start⟩ ++
            madeAttribute var parameters), ⟨declaration.span.stop, stop⟩⟩] by
    obtain ⟨text, pieces⟩ := both
    constructor
    · rw [text]
      simp only [elementSegments, pieced, List.flatMap_cons, List.flatMap_nil, Segment.text, List.append_nil,
        List.append_assoc]
    · rw [pieces]
      simp only [elementSegments, excerpts, Text.byteSize_append, Nat.zero_add]
  cases parameters <;> exact ⟨rfl, rfl⟩

theorem ofRun_madeUp (source : Text) (run : Span) (declaration : Nat) (var : Text)
    (parameters : Option Text) : (ofRun source run declaration var parameters).MadeUp source
      (runSegments run var parameters) := by
  suffices both : (ofRun source run declaration var parameters).text =
        madeComment var parameters ++ source.at run ∧
      (ofRun source run declaration var parameters).pieces =
        [⟨(madeComment var parameters).byteSize, run⟩] by
    obtain ⟨text, pieces⟩ := both
    constructor
    · rw [text]
      simp only [runSegments, pieced, List.flatMap_cons, List.flatMap_nil, Segment.text, List.append_nil]
    · rw [pieces]
      simp only [runSegments, excerpts, Nat.zero_add]
  cases parameters <;> exact ⟨rfl, rfl⟩

end MacroBody

end MarkupTemplates
