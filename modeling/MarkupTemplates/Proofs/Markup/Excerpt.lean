import MarkupTemplates.Proofs.Markup.Cutting
import MarkupTemplates.Proofs.Markup.Relocation
import MarkupTemplates.Proofs.Markup.Siblings
import MarkupTemplates.Proofs.Text.Bytes

namespace MarkupTemplates

/-- A comment divides pieces as it divides the nodes that they form. Nothing before it is left open. -/
def Divided (outer : List Text) (start : Nat) (tokens : List Token) (first : List Node) (span : Span)
    (second : List Node) (left : List Text) : Prop :=
  ∃ before text after, tokens = before ++ .comment text :: after ∧
    span = ⟨start + (spelling before).byteSize, start + (spelling (before ++ [.comment text])).byteSize⟩ ∧
    Formed outer start before first [] ∧ Formed outer span.stop after second left

theorem Divided.later {outer : List Text} {start next : Nat} {tokens : List Token}
    {first second : List Node} {span : Span} {left : List Text}
    (divided : Divided outer next tokens first span second left) (passed : List Token) (own : List Node)
    (size : start + (spelling passed).byteSize = next)
    (extend : ∀ before, Formed outer next before first [] →
      Formed outer start (passed ++ before) (own ++ first) []) :
    Divided outer start (passed ++ tokens) (own ++ first) span second left := by
  obtain ⟨before, text, after, rfl, eq, inFront, behind⟩ := divided
  refine ⟨passed ++ before, text, after, (List.append_assoc ..).symm, ?_, extend before inFront, behind⟩
  rw [eq, List.append_assoc passed, byteSize_spelling_append passed, byteSize_spelling_append passed, ← size,
    Nat.add_assoc, Nat.add_assoc]

/-- No element before the comment is still open, since the comment would have become a child of it. -/
theorem Formed.split_comment {outer : List Text} {start : Nat} {tokens : List Token}
    {first second : List Node} {span : Span} {left : List Text}
    (formed : Formed outer start tokens (first ++ .comment span :: second) left) :
    Divided outer start tokens first span second left := by
  generalize split : first ++ .comment span :: second = nodes at formed
  induction formed generalizing first with
  | done => simp at split
  | @plain outer start text rest nodes left _ ih =>
    exact (ih split).later [.plain text] [] (by rw [byteSize_spelling_singleton, Token.text]) fun _ => .plain
  | @stray outer start name gap rest nodes left others _ ih =>
    exact (ih split).later [.endTag name gap] [] (by rw [byteSize_spelling_singleton])
      fun _ => .stray others
  | @comment outer start text rest nodes left formed ih =>
    cases first with
    | nil =>
      obtain ⟨eq, rfl⟩ := List.cons.inj split
      obtain rfl := Node.comment.inj eq
      refine ⟨[], text, rest, rfl, ?_, .done, formed⟩
      rw [List.nil_append, byteSize_spelling_singleton, Token.text]
      rfl
    | cons node first =>
      obtain ⟨rfl, rest_split⟩ := List.cons.inj split
      exact (ih rest_split).later [.comment text] [_] (by rw [byteSize_spelling_singleton, Token.text])
        fun _ => .comment
  | @whole outer start tag rest nodes left whole _ ih =>
    cases first with
    | nil => exact Node.noConfusion (List.cons.inj split).1
    | cons node first =>
      obtain ⟨rfl, rest_split⟩ := List.cons.inj split
      exact (ih rest_split).later [.startTag tag] [_] (by rw [byteSize_spelling_singleton, Token.text])
        fun _ => .whole whole
  | @raw outer start tag content rest nodes left _ ih =>
    cases first with
    | nil => exact Node.noConfusion (List.cons.inj split).1
    | cons node first =>
      obtain ⟨rfl, rest_split⟩ := List.cons.inj split
      exact (ih rest_split).later [.rawElement tag content] [_] (by rw [byteSize_spelling_singleton])
        fun _ => .raw
  | @closed outer start tag inner children inside name gap rest nodes left open_tag formed others same _ _
      ih =>
    cases first with
    | nil => exact Node.noConfusion (List.cons.inj split).1
    | cons node first =>
      obtain ⟨rfl, rest_split⟩ := List.cons.inj split
      have split_off (after : List Token) : .startTag tag :: inner ++ .endTag name gap :: after =
          .startTag tag :: inner ++ [.endTag name gap] ++ after := by
        rw [List.append_assoc, List.singleton_append]
      rw [split_off]
      refine (ih rest_split).later _ [_] rfl fun before inFront => ?_
      rw [← split_off]
      exact .closed open_tag formed others same inFront
  | @unclosed outer start tag inner children inside _ _ _ =>
    cases first with
    | nil => exact Node.noConfusion (List.cons.inj split).1
    | cons node first =>
      have last := (List.cons.inj split).2
      simp at last

/-- Pieces form one row of nodes only. -/
theorem Formed.unique {outer : List Text} {start : Nat} {tokens : List Token} {first second : List Node}
    {left left' : List Text} (one : Formed [] start tokens first left)
    (other : Formed outer start tokens second left') : first = second :=
  one.finish.symm.trans (other.mono fun _ member => absurd member List.not_mem_nil).finish

/-- What stands between two comments in a row of siblings reads on its own just as it reads there, at
any depth: nothing that is open around it or half open before it has a part in it. So the body of a
macro keeps its structure when it is set apart. -/
theorem nodes_between_comments {source : Text} {row first between second : List Node}
    {opening closing : Span} (siblings : Siblings source.nodes row)
    (split : row = first ++ .comment opening :: (between ++ .comment closing :: second)) :
    between = (source.at ⟨opening.stop, closing.start⟩).nodes.map
      (Node.relocated fun n => opening.stop + n) := by
  obtain ⟨left, document⟩ := formed_nodes source
  obtain ⟨outer, before, inner, after, left', pieces, formed⟩ := document.siblings siblings
  subst split
  obtain ⟨front, text, rest, rfl, openedAt, _, behind⟩ := formed.split_comment
  obtain ⟨middle, text', tail, rfl, closedAt, formed, _⟩ := behind.split_comment
  have here : Scan.tokens source =
      (before ++ front ++ [.comment text]) ++ middle ++ (.comment text' :: tail ++ after) := by
    rw [pieces]
    simp only [List.append_assoc, List.cons_append, List.nil_append]
  have start : (spelling (before ++ front ++ [.comment text])).byteSize = opening.stop := by
    rw [openedAt]
    simp only [byteSize_spelling_append, Nat.zero_add, Nat.add_assoc]
  have stop : closing.start = opening.stop + (spelling middle).byteSize := by rw [closedAt]
  have excerpt : source.at ⟨opening.stop, closing.start⟩ = spelling middle := by
    have spelled : source = spelling (before ++ front ++ [.comment text]) ++ spelling middle ++
        spelling (.comment text' :: tail ++ after) := by
      rw [← spelling_append, ← spelling_append, ← here, spelling, Scan.tokens_spells]
    have cut := Text.slice_append (spelling (before ++ front ++ [.comment text])) (spelling middle)
      (spelling (.comment text' :: tail ++ after))
    rw [← spelled, start, ← stop] at cut
    exact cut
  obtain ⟨left'', alone⟩ := formed_nodes (spelling middle)
  rw [Scan.tokens_excerpt here] at alone
  rw [excerpt]
  exact (Formed.unique (alone.relocated fun n => by rw [Nat.zero_add]) formed).symm

/-- The macro stands in a list that is never closed, and an end tag in its body has no element. -/
theorem nodes_between_comments_in_unclosed_list :
    let source : Text :=
      "<ul><!-- macro=\"m\" --></b><li c=d>x</li><!-- if=\"c\" --><!-- end=\"macro\" -->"
    let between : List Node := [.element ⟨"li", [⟨"c", some "d", ⟨30, 33⟩, some 32⟩], ⟨26, 34⟩⟩ 40 [],
      .comment ⟨40, 55⟩]
    Siblings source.nodes ([] ++ .comment ⟨4, 22⟩ :: (between ++ .comment ⟨55, 75⟩ :: [])) ∧
      between = (source.at ⟨22, 55⟩).nodes.map (Node.relocated fun n => 22 + n) := by
  intro source between
  have list : source.nodes = [.element ⟨"ul", [], ⟨0, 4⟩⟩ 75
      ([] ++ .comment ⟨4, 22⟩ :: (between ++ .comment ⟨55, 75⟩ :: []))] := by decide +kernel
  have siblings : Siblings source.nodes
      ([] ++ .comment ⟨4, 22⟩ :: (between ++ .comment ⟨55, 75⟩ :: [])) :=
    .children .roots (by rw [list]; exact List.mem_cons_self)
  exact ⟨siblings, nodes_between_comments siblings rfl⟩

end MarkupTemplates
