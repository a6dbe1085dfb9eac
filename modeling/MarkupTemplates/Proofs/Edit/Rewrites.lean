import MarkupTemplates.Proofs.Edit.Application

namespace MarkupTemplates

namespace Edits

/-- The changes lie between two boundaries of the source and make `text` of the stretch in between. -/
structure Rewrites (source : Text) (made : Edits) (lo hi : Nat) (text : Text) : Prop where
  atLo : source.IsBoundary lo
  atHi : source.IsBoundary hi
  forward : lo ≤ hi
  removals : ∀ span ∈ made.removals, lo ≤ span.start ∧ span.stop ≤ hi ∧
    source.IsBoundary span.start ∧ source.IsBoundary span.stop
  insertions : ∀ insertion ∈ made.insertions, lo ≤ insertion.position ∧ insertion.position ≤ hi ∧
    source.IsBoundary insertion.position
  spelled : made.spelled lo (source.slice lo hi) = text

theorem append_assoc (first second third : Edits) :
    first ++ second ++ third = first ++ (second ++ third) := by
  show Edits.mk _ _ = Edits.mk _ _
  simp only [removals_append, insertions_append, List.append_assoc]

theorem append_empty (edits : Edits) : edits ++ ({} : Edits) = edits := by
  show Edits.mk _ _ = Edits.mk _ _
  simp only [List.append_nil]

theorem insert_eq_append (edits : Edits) (position : Nat) (text : Text) :
    edits.insert position text = edits ++ ⟨[], [⟨position, text⟩]⟩ := by
  show Edits.mk _ _ = Edits.mk _ _
  simp only [List.append_nil]

theorem remove_eq_append (edits : Edits) (span : Span) : edits.remove span = edits ++ ⟨[span], []⟩ := by
  show Edits.mk _ _ = Edits.mk _ _
  simp only [List.append_nil]

theorem mk_eq_append (removals : List Span) (insertions : List Insertion) :
    (⟨removals, insertions⟩ : Edits) = (⟨[], insertions⟩ : Edits) ++ ⟨removals, []⟩ := by
  show _ = Edits.mk _ _
  simp only [List.nil_append, List.append_nil]

/-- Where one stretch ends and the next one begins, the earlier changes come first. -/
theorem Rewrites.append {source : Text} {first second : Edits} {lo mid hi : Nat} {s t : Text}
    (one : Rewrites source first lo mid s) (two : Rewrites source second mid hi t) :
    Rewrites source (first ++ second) lo hi (s ++ t) where
  atLo := one.atLo
  atHi := two.atHi
  forward := Nat.le_trans one.forward two.forward
  removals span member := by
    have forward := one.forward
    have forward' := two.forward
    rcases List.mem_append.mp member with member | member
    · obtain ⟨lower, upper, atStart, atStop⟩ := one.removals span member
      exact ⟨lower, by omega, atStart, atStop⟩
    · obtain ⟨lower, upper, atStart, atStop⟩ := two.removals span member
      exact ⟨by omega, upper, atStart, atStop⟩
  insertions insertion member := by
    have forward := one.forward
    have forward' := two.forward
    rcases List.mem_append.mp member with member | member
    · obtain ⟨lower, upper, boundary⟩ := one.insertions insertion member
      exact ⟨lower, by omega, boundary⟩
    · obtain ⟨lower, upper, boundary⟩ := two.insertions insertion member
      exact ⟨by omega, upper, boundary⟩
  spelled := by
    have size := Text.byteSize_slice one.atLo one.atHi one.forward
    have forward := one.forward
    have atMid : lo + (source.slice lo mid).byteSize = mid := by omega
    rw [← Text.slice_append_slice one.atLo one.atHi two.atHi one.forward two.forward, spelled_append,
      one.spelled, atMid, two.spelled]
    · intro p above
      exact inserted_eq_nil fun insertion member => by have := one.insertions insertion member; omega
    · intro p above
      exact removes_eq_false fun span member => by have := one.removals span member; omega
    · intro p below
      exact inserted_eq_nil fun insertion member => by have := two.insertions insertion member; omega
    · intro p below
      exact removes_eq_false fun span member => by have := two.removals span member; omega

theorem Rewrites.kept {source : Text} {lo hi : Nat} (atLo : source.IsBoundary lo)
    (atHi : source.IsBoundary hi) (forward : lo ≤ hi) :
    Rewrites source {} lo hi (source.slice lo hi) where
  atLo := atLo
  atHi := atHi
  forward := forward
  removals _ member := absurd member List.not_mem_nil
  insertions _ member := absurd member List.not_mem_nil
  spelled := spelled_untouched (fun _ _ _ => rfl) fun _ _ _ => rfl

theorem Rewrites.put {source : Text} {insertions : List Insertion} {n : Nat}
    (boundary : source.IsBoundary n) (here : ∀ insertion ∈ insertions, insertion.position = n) :
    Rewrites source ⟨[], insertions⟩ n n (insertions.flatMap Insertion.text) where
  atLo := boundary
  atHi := boundary
  forward := Nat.le_refl n
  removals _ member := absurd member List.not_mem_nil
  insertions insertion member := by
    rw [here insertion member]
    exact ⟨Nat.le_refl n, Nat.le_refl n, boundary⟩
  spelled := by
    rw [Text.slice_self, spelled_atEnd, List.nil_append]
    exact here

theorem Rewrites.putOne {source : Text} {n : Nat} (boundary : source.IsBoundary n) (text : Text) :
    Rewrites source ⟨[], [⟨n, text⟩]⟩ n n text := by
  have all : Rewrites source ⟨[], [⟨n, text⟩]⟩ n n ([⟨n, text⟩].flatMap Insertion.text) :=
    put boundary fun insertion member => by rw [List.mem_singleton.mp member]
  rwa [List.flatMap_cons, List.flatMap_nil, List.append_nil] at all

theorem spelled_gone {edits : Edits} {t : Text} {n : Nat}
    (insertions : ∀ p, n ≤ p → p ≤ n + t.byteSize → edits.inserted p = [])
    (removals : ∀ p, n ≤ p → p < n + t.byteSize → edits.removes p = true) : edits.spelled n t = [] := by
  induction t generalizing n with
  | nil => exact insertions n (Nat.le_refl n) (Nat.le_add_right ..)
  | cons c t ih =>
    have positive := c.utf8Size_pos
    simp only [Text.byteSize_cons] at insertions removals
    have here := insertions n (Nat.le_refl n) (by omega)
    have gone := removals n (Nat.le_refl n) (by omega)
    have rest := ih (n := n + c.utf8Size) (fun p lower upper => insertions p (by omega) (by omega))
      (fun p lower upper => removals p (by omega) (by omega))
    simp only [spelled, here, gone, rest, if_true, List.append_nil]

theorem Rewrites.removed {source : Text} {lo hi : Nat} (atLo : source.IsBoundary lo)
    (atHi : source.IsBoundary hi) (forward : lo ≤ hi) : Rewrites source ⟨[⟨lo, hi⟩], []⟩ lo hi [] where
  atLo := atLo
  atHi := atHi
  forward := forward
  removals span member := by
    rw [List.mem_singleton.mp member]
    exact ⟨Nat.le_refl lo, Nat.le_refl hi, atLo, atHi⟩
  insertions _ member := absurd member List.not_mem_nil
  spelled := by
    have size := Text.byteSize_slice atLo atHi forward
    refine spelled_gone (fun _ _ _ => rfl) fun p lower upper => ?_
    have inside : lo ≤ p ∧ p < hi := by omega
    simpa [removes] using inside

theorem Rewrites.onBoundaries {source : Text} {made : Edits} {lo hi : Nat} {text : Text}
    (rewrites : Rewrites source made lo hi text) : made.OnBoundaries source :=
  ⟨fun span member _ => (rewrites.removals span member).2.2.1,
    fun span member _ => (rewrites.removals span member).2.2.2,
    fun insertion member _ => (rewrites.insertions insertion member).2.2⟩

/-- Changes to the whole source make the text of it. -/
theorem Rewrites.apply {source : Text} {made : Edits} {text : Text}
    (rewrites : Rewrites source made 0 source.byteSize text) : made.apply source = text := by
  have within := rewrites.onBoundaries
  have none : made.beyond source.byteSize = [] := by
    rw [beyond, List.filter_eq_nil_iff.mpr, List.flatMap_nil]
    intro insertion member
    have inside := (rewrites.insertions insertion (List.mem_mergeSort.mp member)).2.1
    simpa using inside
  have whole := rewrites.spelled
  rw [Text.slice_zero_byteSize] at whole
  rw [apply_eq_spelled within, none, whole, List.append_nil]

end Edits

end MarkupTemplates
