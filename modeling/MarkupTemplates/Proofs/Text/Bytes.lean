import MarkupTemplates.Markup.Node

namespace MarkupTemplates

namespace Text

theorem byteSize_pos {t : Text} (some_text : t ≠ []) : 0 < byteSize t := by
  obtain ⟨c, rest, rfl⟩ := List.exists_cons_of_ne_nil some_text
  have := c.utf8Size_pos
  simp only [byteSize]
  omega

theorem dropBytes_append (s t : Text) : dropBytes (byteSize s) (s ++ t) = t := by
  induction s with
  | nil => cases t <;> rfl
  | cons c s ih =>
    have positive := c.utf8Size_pos
    obtain ⟨n, size⟩ : ∃ n, byteSize (c :: s) = n + 1 := ⟨byteSize (c :: s) - 1, by
      simp only [byteSize]; omega⟩
    rw [size, List.cons_append, dropBytes, ← size, byteSize_cons, Nat.add_sub_cancel_left]
    exact ih

theorem takeBytes_append (s t : Text) : takeBytes (byteSize s) (s ++ t) = s := by
  induction s with
  | nil => cases t <;> rfl
  | cons c s ih =>
    have positive := c.utf8Size_pos
    obtain ⟨n, size⟩ : ∃ n, byteSize (c :: s) = n + 1 := ⟨byteSize (c :: s) - 1, by
      simp only [byteSize]; omega⟩
    rw [size, List.cons_append, takeBytes, ← size, byteSize_cons, Nat.add_sub_cancel_left]
    rw [ih]

theorem dropBytes_subset (n : Nat) (t : Text) : t.dropBytes n ⊆ t := by
  fun_induction dropBytes n t with
  | case1 => exact List.Subset.refl _
  | case2 => exact List.Subset.refl _
  | case3 n c t ih => exact List.subset_cons_of_subset c ih

theorem takeBytes_subset (n : Nat) (t : Text) : t.takeBytes n ⊆ t := by
  fun_induction takeBytes n t with
  | case1 => exact List.nil_subset _
  | case2 => exact List.nil_subset _
  | case3 n c t ih => exact List.cons_subset_cons c ih

theorem slice_subset (t : Text) (lo hi : Nat) : t.slice lo hi ⊆ t :=
  List.Subset.trans (takeBytes_subset _ _) (dropBytes_subset _ _)

/-- The stretch of a text between two parts of it, found by counting bytes. -/
theorem slice_append (before middle after : Text) :
    slice (before ++ middle ++ after) (byteSize before) (byteSize before + byteSize middle) = middle := by
  rw [slice, List.append_assoc, dropBytes_append, Nat.add_sub_cancel_left, takeBytes_append]

theorem slice_append_front (front behind : Text) : slice (front ++ behind) 0 front.byteSize = front := by
  have cut := slice_append [] front behind
  rwa [List.nil_append, byteSize_nil, Nat.zero_add] at cut

/-- The position lies between two characters of the text, or at one end of it. -/
def IsBoundary (t : Text) (n : Nat) : Prop :=
  ∃ before after, t = before ++ after ∧ byteSize before = n

theorem isBoundary_zero (t : Text) : t.IsBoundary 0 := ⟨[], t, rfl, rfl⟩

theorem isBoundary_byteSize (t : Text) : t.IsBoundary t.byteSize := ⟨t, [], by simp, rfl⟩

theorem IsBoundary.le {t : Text} {n : Nat} (boundary : t.IsBoundary n) : n ≤ t.byteSize := by
  obtain ⟨before, after, rfl, rfl⟩ := boundary
  rw [byteSize_append]
  omega

/-- Two boundaries divide a text into three parts. -/
theorem IsBoundary.split {t : Text} {lo hi : Nat} (atLo : t.IsBoundary lo) (atHi : t.IsBoundary hi)
    (ordered : lo ≤ hi) : ∃ before middle after, t = before ++ middle ++ after ∧
      byteSize before = lo ∧ byteSize before + byteSize middle = hi := by
  obtain ⟨before, rest, eq, size⟩ := atLo
  obtain ⟨longer, after, eq', size'⟩ := atHi
  rcases List.append_eq_append_iff.mp (eq.symm.trans eq') with ⟨middle, rfl, rfl⟩ | ⟨middle, rfl, rfl⟩
  · exact ⟨before, middle, after, eq', size, by rw [← byteSize_append, size']⟩
  · -- the first part is the longer one, so there is nothing in between
    rw [byteSize_append] at size
    exact ⟨longer ++ middle, [], rest, by simpa using eq, by rw [byteSize_append]; omega, by
      simp only [byteSize_append, byteSize_nil]; omega⟩

/-- A text is divided in one way only at a given byte. -/
theorem append_inj_of_byteSize {a b c d : Text} (eq : a ++ b = c ++ d) (size : byteSize a = byteSize c) :
    a = c ∧ b = d := by
  have first : a = c := by
    rw [← takeBytes_append a b, ← takeBytes_append c d, eq, size]
  subst first
  exact ⟨rfl, List.append_cancel_left eq⟩

/-- No boundary lies inside a character. -/
theorem IsBoundary.beyond_char {before after : Text} {c : Char} {n : Nat}
    (boundary : IsBoundary (before ++ c :: after) n) (inside : before.byteSize < n) :
    before.byteSize + c.utf8Size ≤ n := by
  have atStart : IsBoundary (before ++ c :: after) before.byteSize := ⟨before, c :: after, rfl, rfl⟩
  obtain ⟨first, middle, last, eq, size, size'⟩ := atStart.split boundary (Nat.le_of_lt inside)
  rw [List.append_assoc] at eq
  obtain ⟨rfl, rest⟩ := append_inj_of_byteSize eq.symm size
  cases middle with
  | nil =>
    rw [byteSize_nil] at size'
    omega
  | cons d middle =>
    obtain ⟨rfl, _⟩ := List.cons.inj rest
    rw [byteSize_cons] at size'
    omega

theorem byteSize_slice {t : Text} {lo hi : Nat} (atLo : t.IsBoundary lo) (atHi : t.IsBoundary hi)
    (ordered : lo ≤ hi) : byteSize (t.slice lo hi) = hi - lo := by
  obtain ⟨before, middle, after, rfl, rfl, rfl⟩ := atLo.split atHi ordered
  rw [slice_append]
  omega

theorem slice_self (t : Text) (n : Nat) : t.slice n n = [] := by
  rw [slice, Nat.sub_self]
  cases dropBytes n t <;> rfl

theorem slice_zero_byteSize (t : Text) : t.slice 0 t.byteSize = t := by
  have whole := slice_append_front t []
  rwa [List.append_nil] at whole

/-- Stretches that meet at a boundary make up the stretch from end to end. -/
theorem slice_append_slice {t : Text} {lo mid hi : Nat} (atLo : t.IsBoundary lo)
    (atMid : t.IsBoundary mid) (atHi : t.IsBoundary hi) (first : lo ≤ mid) (second : mid ≤ hi) :
    t.slice lo mid ++ t.slice mid hi = t.slice lo hi := by
  obtain ⟨before, left, _, eq, rfl, rfl⟩ := atLo.split atMid first
  obtain ⟨start, right, after, eq', size, rfl⟩ := atMid.split atHi second
  rw [← byteSize_append] at size
  obtain ⟨rfl, rfl⟩ : before ++ left = start ∧ _ = right ++ after :=
    append_inj_of_byteSize (by rw [← eq, eq', List.append_assoc]) size.symm
  rw [byteSize_append] at size ⊢
  have inFront := slice_append before left (right ++ after)
  have behind := slice_append (before ++ left) right after
  have whole := slice_append before (left ++ right) after
  rw [← List.append_assoc] at inFront
  rw [byteSize_append] at behind
  rw [byteSize_append, ← Nat.add_assoc, ← List.append_assoc] at whole
  rw [eq', whole, inFront, behind]

theorem boundaryBefore_append (s t : Text) : (s ++ t).boundaryBefore s.byteSize = s.byteSize := by
  induction s with
  | nil =>
    cases t with
    | nil => rfl
    | cons c t =>
      have := c.utf8Size_pos
      rw [List.nil_append, boundaryBefore, byteSize_nil, if_neg (by omega)]
  | cons c s ih =>
    rw [List.cons_append, boundaryBefore, byteSize_cons, if_pos (Nat.le_add_right ..), Nat.add_sub_cancel_left, ih]

theorem boundaryBefore_of_isBoundary {t : Text} {n : Nat} (boundary : t.IsBoundary n) :
    t.boundaryBefore n = n := by
  obtain ⟨before, after, rfl, rfl⟩ := boundary
  exact boundaryBefore_append before after

theorem isBoundary_boundaryBefore (t : Text) (n : Nat) : t.IsBoundary (t.boundaryBefore n) := by
  induction t generalizing n with
  | nil => exact ⟨[], [], rfl, rfl⟩
  | cons c t ih =>
    rw [boundaryBefore]
    split
    · obtain ⟨before, after, eq, size⟩ := ih (n - c.utf8Size)
      exact ⟨c :: before, after, by rw [eq]; rfl, by rw [byteSize_cons, size]⟩
    · exact ⟨[], c :: t, rfl, rfl⟩

instance (t : Text) (n : Nat) : Decidable (t.IsBoundary n) :=
  decidable_of_iff (t.boundaryBefore n = n)
    ⟨fun here => here ▸ isBoundary_boundaryBefore t n, boundaryBefore_of_isBoundary⟩

end Text

end MarkupTemplates
