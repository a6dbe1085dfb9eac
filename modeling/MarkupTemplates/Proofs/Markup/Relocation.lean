import MarkupTemplates.Proofs.Markup.Formation

namespace MarkupTemplates

/-- The same markup with its positions moved. -/
def Span.relocated (move : Nat → Nat) (s : Span) : Span := ⟨move s.start, move s.stop⟩

def Attribute.relocated (move : Nat → Nat) (a : Attribute) : Attribute :=
  { a with span := a.span.relocated move, valueStart := a.valueStart.map move }

def Tag.relocated (move : Nat → Nat) (tag : Tag) : Tag :=
  { tag with
    attributes := tag.attributes.map (Attribute.relocated move)
    span := tag.span.relocated move }

mutual

def Node.relocated (move : Nat → Nat) : Node → Node
  | .comment span => .comment (span.relocated move)
  | .element tag stop children => .element (tag.relocated move) (move stop) (relocatedInRow move children)

def relocatedInRow (move : Nat → Nat) : List Node → List Node
  | [] => []
  | node :: rest => node.relocated move :: relocatedInRow move rest

end

theorem relocatedInRow_eq_map (move : Nat → Nat) (nodes : List Node) :
    relocatedInRow move nodes = nodes.map (Node.relocated move) := by
  induction nodes with
  | nil => rfl
  | cons node rest ih => rw [relocatedInRow, ih, List.map_cons]

/-- Positions from `start` on are moved to `target`, all by the same distance. -/
def Moves (move : Nat → Nat) (start target : Nat) : Prop := ∀ n, move (start + n) = target + n

theorem Moves.start {move : Nat → Nat} {start target : Nat} (moves : Moves move start target) :
    move start = target := moves 0

theorem Moves.add {move : Nat → Nat} {start target : Nat} (moves : Moves move start target) (k : Nat) :
    Moves move (start + k) (target + k) := by
  intro n
  rw [Nat.add_assoc, moves, Nat.add_assoc]

theorem WrittenAttribute.located_relocated {move : Nat → Nat} {start target : Nat} (a : WrittenAttribute)
    (moves : ∀ n, n ≤ a.text.byteSize → move (start + n) = target + n) :
    (a.located start).relocated move = a.located target := by
  obtain ⟨gap, name, assigned⟩ := a
  simp only [text, Text.byteSize_append] at moves
  simp only [located, Attribute.relocated, Span.relocated, Attribute.mk.injEq, true_and, Span.mk.injEq, text,
    Text.byteSize_append]
  refine ⟨⟨moves _ (by omega), moves _ (Nat.le_refl _)⟩, ?_⟩
  cases assigned with
  | none => rfl
  | some written =>
    have inside : written.value.indent ≤ written.value.text.byteSize := by
      cases written.value with
      | quoted mark content => exact Nat.le_trans mark.utf8Size_pos (Nat.le_add_right ..)
      | bare content => exact Nat.zero_le _
    have size : written.text.byteSize =
        Text.byteSize written.before + (1 + (Text.byteSize written.after + written.value.text.byteSize)) := by
      rw [Assignment.text, Text.byteSize_append, Text.byteSize_append, Text.byteSize_cons, Nat.add_assoc,
        Nat.add_assoc]
      rfl
    simp only [Option.map_some, Nat.add_assoc] at moves ⊢
    rw [moves _ (by omega)]

theorem locatedInRow_relocated {move : Nat → Nat} {start target : Nat} (list : List WrittenAttribute)
    (moves : ∀ n, n ≤ Text.byteSize (list.flatMap WrittenAttribute.text) → move (start + n) = target + n) :
    (locatedInRow start list).map (Attribute.relocated move) = locatedInRow target list := by
  induction list generalizing start target with
  | nil => rfl
  | cons a rest ih =>
    rw [List.flatMap_cons, Text.byteSize_append] at moves
    rw [locatedInRow, List.map_cons, a.located_relocated fun n less => moves n (by omega), ih, locatedInRow]
    intro n less
    rw [Nat.add_assoc, moves _ (by omega), Nat.add_assoc]

theorem WrittenTag.located_relocated {move : Nat → Nat} {start target : Nat}
    (moves : Moves move start target) (tag : WrittenTag) :
    (tag.located start).relocated move = tag.located target := by
  simp only [located, Tag.relocated, Span.relocated, Tag.mk.injEq, true_and, Span.mk.injEq]
  exact ⟨locatedInRow_relocated _ fun n _ => ((moves.add 1).add _) n, moves.start, moves _⟩

/-- Pieces form the same nodes wherever they stand. -/
theorem Formed.relocated {move : Nat → Nat} {outer : List Text} {start target : Nat}
    {tokens : List Token} {nodes : List Node} {left : List Text}
    (formed : Formed outer start tokens nodes left) (moves : Moves move start target) :
    Formed outer target tokens (nodes.map (Node.relocated move)) left := by
  induction formed generalizing target with
  | done => exact .done
  | plain _ ih => exact .plain (ih (moves.add _))
  | stray others _ ih => exact .stray others (ih (moves.add _))
  | comment _ ih =>
    rw [List.map_cons, Node.relocated, Span.relocated, moves.start, moves]
    exact .comment (ih (moves.add _))
  | whole whole _ ih =>
    rw [List.map_cons, Node.relocated, WrittenTag.located_relocated moves, moves, relocatedInRow]
    exact .whole whole (ih (moves.add _))
  | raw _ ih =>
    rw [List.map_cons, Node.relocated, WrittenTag.located_relocated moves, moves, relocatedInRow]
    exact .raw (ih (moves.add _))
  | closed open_tag _ others same _ ihInner ihRest =>
    rw [List.map_cons, Node.relocated, WrittenTag.located_relocated moves, moves, relocatedInRow_eq_map]
    exact .closed open_tag (ihInner (moves.add _)) others same (ihRest (moves.add _))
  | unclosed open_tag _ ih =>
    rw [List.map_cons, List.map_nil, Node.relocated, WrittenTag.located_relocated moves, moves,
      relocatedInRow_eq_map]
    exact .unclosed open_tag (ih (moves.add _))

/-- Fewer open elements around them change nothing about pieces in a row. -/
theorem Formed.mono {outer fewer : List Text} {start : Nat} {tokens : List Token} {nodes : List Node}
    {left : List Text} (formed : Formed outer start tokens nodes left)
    (among : ∀ name ∈ fewer, name ∈ outer) : Formed fewer start tokens nodes left := by
  have inside {outer fewer : List Text} (own : Text) (among : ∀ name ∈ fewer, name ∈ outer) :
      ∀ name ∈ own :: fewer, name ∈ own :: outer := by
    intro name member
    rcases List.mem_cons.mp member with rfl | member
    · exact List.mem_cons_self
    · exact List.mem_cons_of_mem _ (among name member)
  induction formed generalizing fewer with
  | done => exact .done
  | plain _ ih => exact .plain (ih among)
  | stray others _ ih => exact .stray (fun other member => others other (among other member)) (ih among)
  | comment _ ih => exact .comment (ih among)
  | whole whole _ ih => exact .whole whole (ih among)
  | raw _ ih => exact .raw (ih among)
  | closed open_tag _ others same _ ihInner ihRest =>
    exact .closed open_tag (ihInner (inside _ among)) others same (ihRest among)
  | unclosed open_tag _ ih => exact .unclosed open_tag (ih (inside _ among))

end MarkupTemplates
