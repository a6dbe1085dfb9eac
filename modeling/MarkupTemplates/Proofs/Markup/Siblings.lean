import MarkupTemplates.Proofs.Markup.Formation

namespace MarkupTemplates

/-- The rows of siblings of a forest, at any depth: its roots, and the children of each element. -/
inductive Siblings (roots : List Node) : List Node → Prop
  | roots : Siblings roots roots
  | children {nodes children : List Node} {tag : Tag} {stop : Nat} :
      Siblings roots nodes → .element tag stop children ∈ nodes → Siblings roots children

/-- The pieces of one element, from its start tag to where it ends. -/
inductive ElementFormed (outer : List Text) (start : Nat) : List Token → Node → List Text → Prop
  | whole {tag : WrittenTag} :
      tag.isWhole = true → ElementFormed outer start [.startTag tag]
        (.element (tag.located start) (start + (spelling [.startTag tag]).byteSize) []) []
  | raw {tag : WrittenTag} {content : Text} :
      ElementFormed outer start [.rawElement tag content]
        (.element (tag.located start) (start + (spelling [.rawElement tag content]).byteSize) []) []
  | closed {tag : WrittenTag} {inner : List Token} {children : List Node} {inside : List Text}
      {name gap : Text} :
      tag.isWhole = false → Formed (tag.name :: outer) (start + tag.text.byteSize) inner children inside →
      (∀ other ∈ inside, ¬ SameName other name) → SameName tag.name name →
      ElementFormed outer start (.startTag tag :: (inner ++ [.endTag name gap]))
        (.element (tag.located start)
          (start + (spelling (.startTag tag :: (inner ++ [.endTag name gap]))).byteSize) children) []
  | unclosed {tag : WrittenTag} {inner : List Token} {children : List Node} {inside : List Text} :
      tag.isWhole = false → Formed (tag.name :: outer) (start + tag.text.byteSize) inner children inside →
      ElementFormed outer start (.startTag tag :: inner)
        (.element (tag.located start) (start + (spelling (.startTag tag :: inner)).byteSize) children)
        (inside ++ [tag.name])

theorem byteSize_spelling_singleton (token : Token) : (spelling [token]).byteSize = token.text.byteSize := by
  rw [byteSize_spelling_cons, spelling_nil, Text.byteSize_nil, Nat.add_zero]

theorem ElementFormed.formed {outer : List Text} {start : Nat} {tokens : List Token} {node : Node}
    {left : List Text} (element : ElementFormed outer start tokens node left) :
    Formed outer start tokens [node] left := by
  cases element with
  | whole whole =>
    rw [byteSize_spelling_singleton]
    exact .whole whole .done
  | raw =>
    rw [byteSize_spelling_singleton]
    exact .raw .done
  | closed open_tag formed others same => exact .closed open_tag formed others same .done
  | unclosed open_tag formed => exact .unclosed open_tag formed

/-- The children of an element are formed by a stretch of its pieces. -/
theorem ElementFormed.children {outer : List Text} {start stop : Nat} {tokens : List Token} {tag : Tag}
    {children : List Node} {left : List Text}
    (element : ElementFormed outer start tokens (.element tag stop children) left) :
    ∃ outer' before inner after left', tokens = before ++ inner ++ after ∧
      Formed outer' (start + (spelling before).byteSize) inner children left' := by
  cases element with
  | whole => exact ⟨[], _, [], [], [], by rw [List.append_nil, List.append_nil], .done⟩
  | raw => exact ⟨[], _, [], [], [], by rw [List.append_nil, List.append_nil], .done⟩
  | @closed written inner children inside name gap open_tag formed others same =>
    refine ⟨written.name :: outer, [.startTag written], inner, [.endTag name gap], inside, rfl, ?_⟩
    rw [byteSize_spelling_singleton]
    exact formed
  | @unclosed written inner children inside open_tag formed =>
    refine ⟨written.name :: outer, [.startTag written], inner, [], inside, by rw [List.append_nil]; rfl, ?_⟩
    rw [byteSize_spelling_singleton]
    exact formed

/-- A node is formed by a stretch of the pieces. -/
def HasElement (outer : List Text) (start : Nat) (tokens : List Token) (node : Node) : Prop :=
  ∃ before mid after left, tokens = before ++ mid ++ after ∧
    ElementFormed outer (start + (spelling before).byteSize) mid node left

theorem HasElement.here {outer : List Text} {start : Nat} {tokens : List Token} {node : Node}
    {left : List Text} (element : ElementFormed outer start tokens node left) (after : List Token) :
    HasElement outer start (tokens ++ after) node :=
  ⟨[], tokens, after, left, rfl, element⟩

theorem HasElement.later {outer : List Text} {start : Nat} {tokens : List Token} {node : Node}
    (first : List Token) (element : HasElement outer (start + (spelling first).byteSize) tokens node) :
    HasElement outer start (first ++ tokens) node := by
  obtain ⟨before, mid, after, left, rfl, formed⟩ := element
  refine ⟨first ++ before, mid, after, left, by simp only [List.append_assoc], ?_⟩
  rw [byteSize_spelling_append, ← Nat.add_assoc]
  exact formed

/-- An element among formed nodes is formed by a stretch of the pieces. -/
theorem Formed.element {outer : List Text} {start stop : Nat} {tokens : List Token} {nodes : List Node}
    {left : List Text} {tag : Tag} {children : List Node} (formed : Formed outer start tokens nodes left)
    (member : .element tag stop children ∈ nodes) :
    HasElement outer start tokens (.element tag stop children) := by
  induction formed with
  | done => exact absurd member List.not_mem_nil
  | @plain outer start text rest nodes left _ ih =>
    exact .later [.plain text] (byteSize_spelling_singleton _ ▸ ih member)
  | @stray outer start name gap rest nodes left _ _ ih =>
    exact .later [.endTag name gap] (byteSize_spelling_singleton _ ▸ ih member)
  | @comment outer start text rest nodes left _ ih =>
    rcases List.mem_cons.mp member with eq | member
    · exact Node.noConfusion eq
    · exact .later [.comment text] (byteSize_spelling_singleton _ ▸ ih member)
  | @whole outer start written rest nodes left whole _ ih =>
    rcases List.mem_cons.mp member with eq | member
    · have own : ElementFormed outer start [.startTag written] _ _ := .whole whole
      rw [byteSize_spelling_singleton, Token.text, ← eq] at own
      exact .here own rest
    · exact .later [.startTag written] (byteSize_spelling_singleton _ ▸ ih member)
  | @raw outer start written content rest nodes left _ ih =>
    rcases List.mem_cons.mp member with eq | member
    · have own : ElementFormed outer start [.rawElement written content] _ _ := .raw
      rw [byteSize_spelling_singleton, ← eq] at own
      exact .here own rest
    · exact .later [.rawElement written content] (byteSize_spelling_singleton _ ▸ ih member)
  | @closed outer start written inner children inside name gap rest nodes left open_tag formed others same
      _ _ ih =>
    have split : .startTag written :: inner ++ .endTag name gap :: rest =
        .startTag written :: (inner ++ [.endTag name gap]) ++ rest := by
      rw [List.cons_append, List.cons_append, List.append_assoc, List.singleton_append]
    rw [split]
    rcases List.mem_cons.mp member with eq | member
    · rw [eq]
      exact .here (.closed open_tag formed others same) rest
    · exact .later _ (ih member)
  | @unclosed outer start written inner children inside open_tag formed _ =>
    rw [List.mem_singleton.mp member]
    have own := HasElement.here (ElementFormed.unclosed open_tag formed) []
    rwa [List.append_nil] at own

/-- Every row of siblings is formed by a stretch of the pieces of the document. -/
theorem Formed.siblings {start : Nat} {tokens : List Token} {roots nodes : List Node} {left : List Text}
    (formed : Formed [] start tokens roots left) (siblings : Siblings roots nodes) :
    ∃ outer before inner after left', tokens = before ++ inner ++ after ∧
      Formed outer (start + (spelling before).byteSize) inner nodes left' := by
  induction siblings with
  | roots => exact ⟨[], [], tokens, [], left, by rw [List.append_nil]; rfl, formed⟩
  | @children nodes children tag stop _ member ih =>
    obtain ⟨outer, before, inner, after, _, split, row⟩ := ih
    obtain ⟨before', mid, after', _, split', element⟩ := row.element member
    obtain ⟨outer', first, inner', last, left', split'', below⟩ := element.children
    refine ⟨outer', before ++ before' ++ first, inner', last ++ after' ++ after, left', ?_, ?_⟩
    · rw [split, split', split'']
      simp only [List.append_assoc]
    · rw [byteSize_spelling_append, byteSize_spelling_append, ← Nat.add_assoc, ← Nat.add_assoc]
      exact below

end MarkupTemplates
