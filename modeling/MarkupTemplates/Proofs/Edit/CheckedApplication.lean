import MarkupTemplates.Proofs.Edit.Rewrites
import MarkupTemplates.Proofs.Text.Cuts

namespace MarkupTemplates

namespace Edits

/-- The source with insertions in between, if all pieces can be cut out of it. -/
def checkedFill (source : Text) (cursor stop : Nat) : List Insertion → Option Text
  | [] => source.checkedSlice cursor stop
  | insertion :: rest => do
    let position := max insertion.position cursor
    let kept ← source.checkedSlice cursor position
    return kept ++ insertion.text ++ (← checkedFill source position stop rest)

/-- The source without the gaps, if all pieces can be cut out of it. -/
def checkedWeave (source : Text) (cursor : Nat) : List Span → List Insertion → Option Text
  | [], insertions => some (insertions.flatMap Insertion.text)
  | gap :: gaps, insertions => do
    let isDue (insertion : Insertion) : Bool := insertion.position ≤ gap.start
    let filled ← checkedFill source cursor gap.start (insertions.takeWhile isDue)
    return filled ++ (← checkedWeave source gap.stop gaps (insertions.dropWhile isDue))

/-- The source with all changes made, if all pieces can be cut out of it. -/
def checkedApply (edits : Edits) (source : Text) : Option Text :=
  let size := source.byteSize
  checkedWeave source 0 (edits.gaps size ++ [⟨size, size⟩])
    (edits.insertions.mergeSort fun a b => a.position ≤ b.position)

variable {source : Text}

theorem checkedFill_eq {insertions : List Insertion} {cursor stop : Nat} (ordered : Ordered source insertions)
    (atCursor : source.IsBoundary cursor) (atStop : source.IsBoundary stop) (forward : cursor ≤ stop)
    (due : ∀ insertion ∈ insertions, insertion.position ≤ stop) :
    checkedFill source cursor stop insertions = some (fill source cursor stop insertions) := by
  induction insertions generalizing cursor with
  | nil => exact Text.checkedSlice_eq forward atCursor atStop
  | cons insertion rest ih =>
    have inside := due insertion List.mem_cons_self
    have atPosition : source.IsBoundary (max insertion.position cursor) := by
      rcases Nat.le_total insertion.position cursor with less | less
      · rwa [Nat.max_eq_right less]
      · rw [Nat.max_eq_left less]
        exact ordered.boundaries insertion List.mem_cons_self (Nat.le_trans inside atStop.le)
    have others := ih ordered.tail atPosition (by omega) fun next member =>
      due next (List.mem_cons_of_mem _ member)
    rw [checkedFill, fill, Text.checkedSlice_eq (Nat.le_max_right ..) atCursor atPosition, others]
    rfl

theorem checkedWeave_eq {gaps : List Span} {insertions : List Insertion} {cursor : Nat}
    (ordered : Ordered source insertions) (atCursor : source.IsBoundary cursor)
    (apart : Apart source cursor gaps) :
    checkedWeave source cursor gaps insertions = some (weave source cursor gaps insertions) := by
  induction apart generalizing insertions with
  | nil => rfl
  | @cons cursor gap gaps forward proper atStart atStop others ih =>
    obtain ⟨taken, dropped⟩ := takeWhile_due (fun insertion => insertion.position ≤ gap.start)
      (fun a b le less => by simp only [decide_eq_true_eq] at *; omega) ordered.sorted
    rw [checkedWeave, weave]
    simp only [taken, dropped]
    rw [checkedFill_eq (ordered.filter _) atCursor atStart forward fun insertion member =>
      of_decide_eq_true (List.mem_filter.mp member).2, ih (ordered.filter _) atStop]
    rfl

/-- Behind spans that do not overlap there is an empty one at the end of the source. -/
theorem Apart.atEnd {lo : Nat} {spans : List Span} (apart : Apart source lo spans) (atLo : source.IsBoundary lo) :
    Apart source lo (spans ++ [⟨source.byteSize, source.byteSize⟩]) := by
  induction apart with
  | nil => exact .cons atLo.le (Nat.le_refl _) source.isBoundary_byteSize source.isBoundary_byteSize .nil
  | cons lower proper atStart atStop _ ih => exact .cons lower proper atStart atStop (ih atStop)

/-- Changes that keep to boundaries can be made. -/
theorem OnBoundaries.checkedApply {edits : Edits} (within : edits.OnBoundaries source) :
    edits.checkedApply source = some (edits.apply source) :=
  checkedWeave_eq within.ordered source.isBoundary_zero ((gaps_apart within).atEnd source.isBoundary_zero)

end Edits

end MarkupTemplates
