import MarkupTemplates.Proofs.Markup.Excerpt
import MarkupTemplates.Proofs.Markup.Extension
import MarkupTemplates.Proofs.Markup.Retagging

namespace MarkupTemplates

/-- The text is an element from its first character to its last: it begins with the start tag, and the end tag that
closes the element comes last. -/
inductive Text.IsElement (tag : WrittenTag) (t : Text) : Prop
  | closed {inner : List Token} {children : List Node} {inside : List Text} {name gap : Text} :
      Scan.tokens t = .startTag tag :: (inner ++ [.endTag name gap]) → tag.isWhole = false →
      Formed [tag.name] tag.text.byteSize inner children inside → (∀ other ∈ inside, ¬ SameName other name) →
      SameName tag.name name → IsElement tag t
  | raw {content : Text} :
      Scan.tokens t = [.rawElement tag content] → EndsRaw (Text.lower tag.name) content → IsElement tag t

/-- Behind an element that has ended, pieces form nodes as they do alone. -/
theorem ElementFormed.followed {outer : List Text} {start : Nat} {tokens rest : List Token} {node : Node}
    {nodes : List Node} {left : List Text} (element : ElementFormed outer start tokens node [])
    (others : Formed outer (start + (spelling tokens).byteSize) rest nodes left) :
    Formed outer start (tokens ++ rest) (node :: nodes) left := by
  generalize open_names : ([] : List Text) = none at element
  cases element with
  | whole whole =>
    rw [byteSize_spelling_singleton] at others ⊢
    exact .whole whole others
  | raw =>
    rw [byteSize_spelling_singleton] at others ⊢
    exact .raw others
  | @closed tag inner children inside name gap open_tag formed apart same =>
    rw [List.cons_append, List.append_assoc, List.singleton_append]
    exact .closed open_tag formed apart same others
  | unclosed => simp at open_names

namespace Text.IsElement

variable {tag : WrittenTag} {t : Text}

/-- What the text of an element consists of: its pieces, and the element that they form wherever they stand, even with
another start tag of the kind. -/
theorem pieces (element : t.IsElement tag) : ∃ first tail init last, Scan.tokens t = first :: tail ∧
    first.tag? = some tag ∧ first :: tail = init ++ [last] ∧ last.Ended ∧
    ∀ (other : WrittenTag) (start shift : Nat), Alike tag other →
      other.text.byteSize + shift = start + tag.text.byteSize → ∃ children,
        ElementFormed [] 0 (first.retagged other :: tail) (.element (other.located 0)
          (0 + (spelling (first.retagged other :: tail)).byteSize) children) [] ∧
        ElementFormed [] start (first :: tail) (.element (tag.located start)
          (start + (spelling (first :: tail)).byteSize) (children.map (Node.relocated (· + shift)))) [] := by
  cases element with
  | @closed inner children inside name gap read open_tag formed others same =>
    refine ⟨_, _, .startTag tag :: inner, .endTag name gap, read, rfl, rfl, trivial, fun other start shift alike size => ?_⟩
    let move (n : Nat) : Nat := n - tag.text.byteSize + other.text.byteSize
    have moves : Moves move tag.text.byteSize (0 + other.text.byteSize) := fun n => by
      simp only [move]
      omega
    have moves' : Moves (· + shift) (0 + other.text.byteSize) (start + tag.text.byteSize) := fun n => by
      simp only
      omega
    have once := formed.relocated moves
    have again := once.relocated moves'
    rw [← alike.name] at once
    exact ⟨children.map (Node.relocated move), .closed (alike.isWhole.trans open_tag) once others (alike.name ▸ same),
      .closed open_tag again others same⟩
  | @raw content read ended =>
    exact ⟨_, [], [], _, read, rfl, rfl, ended, fun other start shift alike size => ⟨[], .raw, .raw⟩⟩

/-- The element is the only node of its text. -/
theorem nodes (element : t.IsElement tag) : ∃ children, t.nodes = [.element (tag.located 0) t.byteSize children] := by
  obtain ⟨first, tail, _, _, read, _, _, _, formed⟩ := element.pieces
  obtain ⟨children, _, alone⟩ := formed tag 0 0 ⟨rfl, rfl⟩ (Nat.add_comm ..)
  have spelled : t = spelling (first :: tail) := by rw [← read, spelling, Scan.tokens_spells]
  rw [Nat.zero_add, ← spelled] at alone
  exact ⟨_, by rw [Text.nodes, read, alone.formed.finish]⟩

end Text.IsElement

end MarkupTemplates
