import MarkupTemplates.Markup.Node

namespace MarkupTemplates

/-- Text that is put in before the byte at `position`. -/
structure Insertion where
  position : Nat
  text : Text
  deriving DecidableEq, Repr

/-- Changes to a source, in the order in which they were asked for. All positions are those of the
source before any change, so no change has to allow for another. -/
structure Edits where
  removals : List Span := []
  insertions : List Insertion := []
  deriving DecidableEq, Repr

namespace Edits

def remove (edits : Edits) (span : Span) : Edits :=
  { edits with removals := edits.removals ++ [span] }

def insert (edits : Edits) (position : Nat) (text : Text) : Edits :=
  { edits with insertions := edits.insertions ++ [⟨position, text⟩] }

def isEmpty (edits : Edits) : Bool := edits.removals.isEmpty && edits.insertions.isEmpty

/-- Spans in order of their starts become spans that do not touch. -/
def mergedAfter (last : Span) : List Span → List Span
  | [] => [last]
  | span :: rest =>
    if span.start ≤ last.stop then mergedAfter ⟨last.start, max last.stop span.stop⟩ rest
    else last :: mergedAfter span rest

def merged : List Span → List Span
  | [] => []
  | span :: rest => mergedAfter span rest

/-- The stretches to leave out of a source of `size` bytes, in order and apart from each other. -/
def gaps (edits : Edits) (size : Nat) : List Span :=
  let clamped := edits.removals.map fun span => (⟨min span.start size, min span.stop size⟩ : Span)
  let proper := clamped.filter fun span => span.start < span.stop
  merged (proper.mergeSort fun a b => a.start ≤ b.start)

/-- The source from `cursor` to `stop` with insertions in between. An insertion that lies before the
cursor comes where the cursor is. -/
def fill (source : Text) (cursor stop : Nat) : List Insertion → Text
  | [] => source.slice cursor stop
  | insertion :: rest =>
    let position := max insertion.position cursor
    source.slice cursor position ++ insertion.text ++ fill source position stop rest

/-- The source from `cursor` on without the gaps, with insertions in order of their positions. An
insertion inside a gap comes at the end of it, one beyond the source at the very end. -/
def weave (source : Text) (cursor : Nat) : List Span → List Insertion → Text
  | [], insertions => insertions.flatMap Insertion.text
  | gap :: gaps, insertions =>
    let isDue (insertion : Insertion) : Bool := insertion.position ≤ gap.start
    fill source cursor gap.start (insertions.takeWhile isDue) ++
      weave source gap.stop gaps (insertions.dropWhile isDue)

/-- The source with all changes made. Insertions at one position keep their order. -/
def apply (edits : Edits) (source : Text) : Text :=
  let size := source.byteSize
  weave source 0 (edits.gaps size ++ [⟨size, size⟩])
    (edits.insertions.mergeSort fun a b => a.position ≤ b.position)

end Edits

end MarkupTemplates
