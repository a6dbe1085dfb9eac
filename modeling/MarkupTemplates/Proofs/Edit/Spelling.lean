import MarkupTemplates.Edit
import MarkupTemplates.Proofs.Text.Bytes

namespace MarkupTemplates

namespace Edits

/-- What is put in before byte `n`, in the order in which it was asked for. -/
def inserted (edits : Edits) (n : Nat) : Text :=
  (edits.insertions.filter fun insertion => insertion.position = n).flatMap Insertion.text

/-- Whether the byte at `n` is left out. -/
def removes (edits : Edits) (n : Nat) : Bool :=
  edits.removals.any fun span => span.start ≤ n && n < span.stop

/-- A stretch of a source that stands at byte `n`, with the changes made one character after the
other. What is put in where the stretch ends belongs to it. -/
def spelled (edits : Edits) (n : Nat) : Text → Text
  | [] => edits.inserted n
  | c :: t =>
    edits.inserted n ++ (if edits.removes n then [] else [c]) ++ edits.spelled (n + c.utf8Size) t

/-- What is put in beyond byte `n`, in order of the positions. -/
def beyond (edits : Edits) (n : Nat) : Text :=
  ((edits.insertions.mergeSort fun a b => a.position ≤ b.position).filter fun insertion =>
    n < insertion.position).flatMap Insertion.text

instance : Append Edits where
  append first second :=
    ⟨first.removals ++ second.removals, first.insertions ++ second.insertions⟩

theorem removals_append (first second : Edits) :
    (first ++ second).removals = first.removals ++ second.removals := rfl

theorem insertions_append (first second : Edits) :
    (first ++ second).insertions = first.insertions ++ second.insertions := rfl

theorem inserted_append (first second : Edits) (n : Nat) :
    (first ++ second).inserted n = first.inserted n ++ second.inserted n := by
  simp only [inserted, insertions_append, List.filter_append, List.flatMap_append]

theorem removes_append (first second : Edits) (n : Nat) :
    (first ++ second).removes n = (first.removes n || second.removes n) := by
  simp only [removes, removals_append, List.any_append]

theorem inserted_eq_nil {edits : Edits} {n : Nat}
    (none : ∀ insertion ∈ edits.insertions, insertion.position ≠ n) : edits.inserted n = [] := by
  have : edits.insertions.filter (fun insertion => insertion.position = n) = [] := by
    simpa [List.filter_eq_nil_iff] using none
  rw [inserted, this, List.flatMap_nil]

theorem removes_eq_false {edits : Edits} {n : Nat}
    (none : ∀ span ∈ edits.removals, n < span.start ∨ span.stop ≤ n) : edits.removes n = false := by
  rw [removes, List.any_eq_false]
  intro span member
  have := none span member
  simp only [Bool.and_eq_true, decide_eq_true_eq]
  omega

/-- A stretch depends only on the changes that concern it. -/
theorem spelled_congr {first second : Edits} {t : Text} {n : Nat}
    (insertions : ∀ p, n ≤ p → p ≤ n + t.byteSize → first.inserted p = second.inserted p)
    (removals : ∀ p, n ≤ p → p < n + t.byteSize → first.removes p = second.removes p) :
    first.spelled n t = second.spelled n t := by
  induction t generalizing n with
  | nil => exact insertions n (Nat.le_refl n) (Nat.le_add_right ..)
  | cons c t ih =>
    have positive := c.utf8Size_pos
    simp only [Text.byteSize_cons] at insertions removals
    have here := insertions n (Nat.le_refl n) (by omega)
    have kept := removals n (Nat.le_refl n) (by omega)
    have rest := ih (n := n + c.utf8Size) (fun p lower upper => insertions p (by omega) (by omega))
      (fun p lower upper => removals p (by omega) (by omega))
    simp only [spelled, here, kept, rest]

/-- Nothing concerns the stretch. -/
theorem spelled_untouched {edits : Edits} {t : Text} {n : Nat}
    (insertions : ∀ p, n ≤ p → p ≤ n + t.byteSize → edits.inserted p = [])
    (removals : ∀ p, n ≤ p → p < n + t.byteSize → edits.removes p = false) :
    edits.spelled n t = t := by
  induction t generalizing n with
  | nil => exact insertions n (Nat.le_refl n) (Nat.le_add_right ..)
  | cons c t ih =>
    have positive := c.utf8Size_pos
    simp only [Text.byteSize_cons] at insertions removals
    have here := insertions n (Nat.le_refl n) (by omega)
    have kept := removals n (Nat.le_refl n) (by omega)
    have rest := ih (n := n + c.utf8Size) (fun p lower upper => insertions p (by omega) (by omega))
      (fun p lower upper => removals p (by omega) (by omega))
    simp only [spelled, here, kept, rest, List.nil_append, Bool.false_eq_true, if_false,
      List.singleton_append]

/-- Changes up to a position and changes from there on can be made one stretch after the other. At
the position itself the first ones come first. -/
theorem spelled_append (first second : Edits) {s t : Text} {n : Nat}
    (beyond : ∀ p, n + s.byteSize < p → first.inserted p = [])
    (done : ∀ p, n + s.byteSize ≤ p → first.removes p = false)
    (later : ∀ p, p < n + s.byteSize → second.inserted p = [])
    (kept : ∀ p, p < n + s.byteSize → second.removes p = false) :
    (first ++ second).spelled n (s ++ t) =
      first.spelled n s ++ second.spelled (n + s.byteSize) t := by
  induction s generalizing n with
  | nil =>
    simp only [Text.byteSize_nil, Nat.add_zero] at beyond done ⊢
    cases t with
    | nil => exact inserted_append first second n
    | cons c t =>
      have positive := c.utf8Size_pos
      have rest : (first ++ second).spelled (n + c.utf8Size) t = second.spelled (n + c.utf8Size) t := by
        apply spelled_congr
        · intro p lower _
          rw [inserted_append, beyond p (by omega), List.nil_append]
        · intro p lower _
          rw [removes_append, done p (by omega), Bool.false_or]
      simp only [List.nil_append, spelled, inserted_append, removes_append, done n (Nat.le_refl n),
        Bool.false_or, rest, List.append_assoc]
  | cons c s ih =>
    have positive := c.utf8Size_pos
    simp only [Text.byteSize_cons, ← Nat.add_assoc] at beyond done later kept ⊢
    have rest := ih beyond done later kept
    simp only [List.cons_append, spelled, inserted_append, removes_append, later n (by omega),
      kept n (by omega), List.append_nil, Bool.or_false, rest, List.append_assoc]

/-- Text put in at one position alone, where the stretch ends. -/
theorem spelled_atEnd {insertions : List Insertion} {t : Text} {n : Nat}
    (atEnd : ∀ insertion ∈ insertions, insertion.position = n + t.byteSize) :
    spelled ⟨[], insertions⟩ n t = t ++ insertions.flatMap Insertion.text := by
  induction t generalizing n with
  | nil =>
    rw [spelled, inserted, List.filter_eq_self.mpr, List.nil_append]
    intro insertion member
    exact decide_eq_true (atEnd insertion member)
  | cons c t ih =>
    have positive := c.utf8Size_pos
    simp only [Text.byteSize_cons, ← Nat.add_assoc] at atEnd
    have none : inserted ⟨[], insertions⟩ n = [] :=
      inserted_eq_nil fun insertion member => by have := atEnd insertion member; omega
    rw [spelled, none, ih atEnd]
    rfl

end Edits

end MarkupTemplates
