import MarkupTemplates.Proofs.Text.Bytes

namespace MarkupTemplates

/-- The difference of two positions, if the first one is not in front of the second. -/
def checkedMinus (a b : Nat) : Option Nat := if b ≤ a then some (a - b) else none

theorem checkedMinus_eq {a b : Nat} (ordered : b ≤ a) : checkedMinus a b = some (a - b) := if_pos ordered

namespace Text

/-- The text from byte `lo` up to byte `hi`, if there are characters that begin there, or the text ends, and
`lo` is not behind `hi`. -/
def checkedSlice (t : Text) (lo hi : Nat) : Option Text :=
  if lo ≤ hi ∧ t.IsBoundary lo ∧ t.IsBoundary hi then some (t.slice lo hi) else none

/-- Where a character is found first. -/
def position? (mark : Char) (t : Text) : Option Nat := (cutAt? mark t).map fun parts => byteSize parts.1

/-- Where a text is found first. -/
def find? (mark t : Text) : Option Nat := (cut? mark t).map fun parts => byteSize parts.1

/-- Goes back from byte `n` until there is a boundary. -/
def checkedBoundary (t : Text) : Nat → Option Nat
  | 0 => if t.IsBoundary 0 then some 0 else none
  | n + 1 => if t.IsBoundary (n + 1) then some (n + 1) else checkedBoundary t n

/-- What a source has in a span, if the span can be cut out of it. -/
def checkedAt (source : Text) (span : Span) : Option Text := source.checkedSlice span.start span.stop

variable {t : Text} {lo hi n : Nat}

theorem checkedSlice_eq (ordered : lo ≤ hi) (atLo : t.IsBoundary lo) (atHi : t.IsBoundary hi) :
    t.checkedSlice lo hi = some (t.slice lo hi) := if_pos ⟨ordered, atLo, atHi⟩

theorem checkedSlice_append (before middle after : Text) :
    (before ++ (middle ++ after)).checkedSlice before.byteSize (before.byteSize + middle.byteSize) = some middle := by
  have atStart : IsBoundary (before ++ (middle ++ after)) before.byteSize := ⟨before, _, rfl, rfl⟩
  have atStop : IsBoundary (before ++ (middle ++ after)) (before.byteSize + middle.byteSize) :=
    ⟨before ++ middle, after, by rw [List.append_assoc], byteSize_append ..⟩
  rw [checkedSlice_eq (Nat.le_add_right ..) atStart atStop, ← List.append_assoc, slice_append]

theorem checkedSlice_front (before after : Text) :
    (before ++ after).checkedSlice 0 before.byteSize = some before := by
  have cut := checkedSlice_append [] before after
  rwa [List.nil_append, byteSize_nil, Nat.zero_add] at cut

theorem checkedSlice_back (before after : Text) :
    (before ++ after).checkedSlice before.byteSize (before ++ after).byteSize = some after := by
  have cut := checkedSlice_append before after []
  rwa [List.append_nil, ← byteSize_append] at cut

/-- No boundary at or before byte `n` is behind the last one. -/
theorem IsBoundary.le_boundaryBefore (boundary : t.IsBoundary lo) (ordered : lo ≤ n) : lo ≤ t.boundaryBefore n := by
  obtain ⟨before, after, rfl, rfl⟩ := boundary
  induction before generalizing n with
  | nil => exact Nat.zero_le _
  | cons c before ih =>
    rw [byteSize_cons] at ordered ⊢
    rw [List.cons_append, boundaryBefore, if_pos (by omega)]
    exact Nat.add_le_add_left (ih (by omega)) _

theorem boundaryBefore_le (t : Text) (n : Nat) : t.boundaryBefore n ≤ n := by
  induction t generalizing n with
  | nil => exact Nat.zero_le n
  | cons c t ih =>
    rw [boundaryBefore]
    split
    · have := ih (n - c.utf8Size)
      omega
    · exact Nat.zero_le n

/-- Going back ends at the last boundary, before the positions run out. -/
theorem checkedBoundary_eq (t : Text) (n : Nat) : t.checkedBoundary n = some (t.boundaryBefore n) := by
  induction n with
  | zero => rw [checkedBoundary, if_pos t.isBoundary_zero, boundaryBefore_of_isBoundary t.isBoundary_zero]
  | succ n ih =>
    rw [checkedBoundary]
    split
    · next boundary => rw [boundaryBefore_of_isBoundary boundary]
    · next inside =>
      have own := t.isBoundary_boundaryBefore (n + 1)
      have behind := t.boundaryBefore_le (n + 1)
      have before : t.boundaryBefore (n + 1) ≠ n + 1 := fun eq => inside (eq ▸ own)
      have lower := own.le_boundaryBefore (show t.boundaryBefore (n + 1) ≤ n by omega)
      have upper := (t.isBoundary_boundaryBefore n).le_boundaryBefore
        (Nat.le_succ_of_le (t.boundaryBefore_le n))
      rw [ih, Nat.le_antisymm lower upper]

/-- A position behind the end is as good as the end. -/
theorem boundaryBefore_min (t : Text) (n : Nat) : t.boundaryBefore (min n t.byteSize) = t.boundaryBefore n := by
  rcases Nat.le_total n t.byteSize with less | less
  · rw [Nat.min_eq_left less]
  · have end_le := t.isBoundary_byteSize.le_boundaryBefore less
    have le_end := (t.isBoundary_boundaryBefore n).le
    rw [Nat.min_eq_right less, boundaryBefore_of_isBoundary t.isBoundary_byteSize, Nat.le_antisymm le_end end_le]

end Text

end MarkupTemplates
