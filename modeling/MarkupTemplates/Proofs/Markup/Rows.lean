import MarkupTemplates.Proofs.Markup.Placement
import MarkupTemplates.Proofs.Markup.Siblings

namespace MarkupTemplates

/-- What holds of a row if it holds of the nodes after the first one, and of the children of that one if
it is an element, holds of every row. -/
@[elab_as_elim]
theorem row_induction {motive : List Node → Prop} (nil : motive [])
    (comment : ∀ span rest, motive rest → motive (.comment span :: rest))
    (element : ∀ tag stop children rest, motive children → motive rest →
      motive (.element tag stop children :: rest)) : ∀ nodes, motive nodes
  | [] => nil
  | .comment span :: rest => comment span rest (row_induction nil comment element rest)
  | .element tag stop children :: rest =>
    element tag stop children rest (row_induction nil comment element children)
      (row_induction nil comment element rest)

variable {source : Text} {lo hi : Nat}

/-- Where a row is divided, its second half stands behind its first. -/
theorem Placed.split {before nodes : List Node} (placed : Placed source lo hi (before ++ nodes)) :
    ∃ mid, Placed source lo mid before ∧ Placed source mid hi nodes := by
  induction before generalizing lo with
  | nil => exact ⟨lo, .nil (Nat.le_refl lo), placed⟩
  | cons first before ih =>
    cases placed with
    | comment lower atStart forward atStop rest =>
      obtain ⟨mid, one, two⟩ := ih rest
      exact ⟨mid, .comment lower atStart forward atStop one, two⟩
    | element lower atStart attributes atTag children atStop rest =>
      obtain ⟨mid, one, two⟩ := ih rest
      exact ⟨mid, .element lower atStart attributes atTag children atStop one, two⟩

/-- A node of a row stands somewhere between the ends of the row. -/
theorem Placed.of_mem {node : Node} {nodes : List Node} (placed : Placed source lo hi nodes)
    (member : node ∈ nodes) : ∃ lo' hi', lo ≤ lo' ∧ hi' ≤ hi ∧ Placed source lo' hi' [node] := by
  obtain ⟨before, after, rfl⟩ := List.append_of_mem member
  obtain ⟨mid, one, two⟩ := placed.split
  rw [← List.singleton_append] at two
  obtain ⟨mid', own, rest⟩ := two.split
  exact ⟨mid, mid', one.le, rest.le, own⟩

theorem Placed.siblings {roots row : List Node} (placed : Placed source lo hi roots)
    (siblings : Siblings roots row) : ∃ lo' hi', Placed source lo' hi' row := by
  induction siblings with
  | roots => exact ⟨lo, hi, placed⟩
  | children _ member ih =>
    obtain ⟨_, _, row⟩ := ih
    obtain ⟨_, _, _, _, own⟩ := row.of_mem member
    cases own with
    | element _ _ _ _ children _ _ => exact ⟨_, _, children⟩

theorem AttributesPlaced.of_mem {attributes : List Attribute} {a : Attribute}
    (placed : AttributesPlaced source hi lo attributes) (member : a ∈ attributes) :
    lo < a.span.start ∧ source.IsBoundary (a.span.start - 1) ∧ source.IsBoundary a.span.stop ∧
      a.span.stop ≤ hi ∧ a.span.start ≤ a.span.stop := by
  induction placed with
  | nil => exact absurd member List.not_mem_nil
  | cons lower atStart forward atStop rest ih =>
    rcases List.mem_cons.mp member with rfl | member
    · exact ⟨lower, atStart, atStop, rest.le, forward⟩
    · obtain ⟨lower', others⟩ := ih member
      exact ⟨by omega, others⟩

end MarkupTemplates
