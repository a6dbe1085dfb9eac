import MarkupTemplates.Proofs.Markup.Preorder
import MarkupTemplates.Proofs.Markup.RawContent
import MarkupTemplates.Proofs.Markup.Spans
import MarkupTemplates.Proofs.ParsedTemplate.Directives

namespace MarkupTemplates

/-- What a comment or a start tag takes up. -/
def Opening.span : Opening → Span
  | comment span => span
  | .tag own => own.span

/-- One stretch ends in front of the other. -/
def Span.Apart (a b : Span) : Prop := a.stop ≤ b.start ∨ b.stop ≤ a.start

/-- Where the content of a raw element stands that is the first piece behind `before`. -/
def contentSpan (before : List Token) (tag : WrittenTag) (content : Text) : Span :=
  ⟨(spelling before).byteSize + tag.text.byteSize, (spelling (before ++ [.rawElement tag content])).byteSize⟩

theorem Token.opening_within {start : Nat} {token : Token} {opening : Opening}
    (found : token.opening? start = some opening) :
    start ≤ opening.span.start ∧ opening.span.stop ≤ start + token.text.byteSize := by
  cases token with
  | comment text => exact Option.some.inj found ▸ ⟨Nat.le_refl _, Nat.le_refl _⟩
  | startTag tag => exact Option.some.inj found ▸ ⟨Nat.le_refl _, Nat.le_refl _⟩
  | rawElement tag content =>
    obtain rfl := Option.some.inj found
    rw [Token.text, Text.byteSize_append]
    exact ⟨Nat.le_refl _, Nat.add_le_add_left (Nat.le_add_right ..) start⟩
  | endTag name gap => cases found
  | plain text => cases found

/-- What pieces begin lies within the pieces. -/
theorem openings_within {start : Nat} {pieces : List Token} {opening : Opening}
    (member : opening ∈ openings start pieces) :
    start ≤ opening.span.start ∧ opening.span.stop ≤ start + (spelling pieces).byteSize := by
  induction pieces generalizing start with
  | nil => exact absurd member List.not_mem_nil
  | cons token rest ih =>
    rw [byteSize_spelling_cons]
    rcases List.mem_append.mp member with own | later
    · have within := Token.opening_within (Option.mem_toList.mp own)
      omega
    · have within := ih later
      omega

/-- Pieces that stand at the same place are the same. -/
theorem split_unique {before before' after after' : List Token} {first first' : Token}
    (some_text : ∀ token ∈ before ++ first :: after, token.text ≠ [])
    (eq : before ++ first :: after = before' ++ first' :: after')
    (same : (spelling before).byteSize = (spelling before').byteSize) : before = before' ∧ first = first' := by
  induction before generalizing before' with
  | nil =>
    cases before' with
    | nil => exact ⟨rfl, (List.cons.inj eq).1⟩
    | cons token before' =>
      have size := Text.byteSize_pos (some_text token (eq ▸ List.mem_append_left _ List.mem_cons_self))
      rw [byteSize_spelling_cons, spelling_nil, Text.byteSize_nil] at same
      omega
  | cons token before ih =>
    cases before' with
    | nil =>
      have size := Text.byteSize_pos (some_text token (List.mem_append_left _ List.mem_cons_self))
      rw [byteSize_spelling_cons, spelling_nil, Text.byteSize_nil] at same
      omega
    | cons token' before' =>
      obtain ⟨rfl, behind⟩ := List.cons.inj eq
      rw [byteSize_spelling_cons, byteSize_spelling_cons, Nat.add_left_cancel_iff] at same
      obtain ⟨rfl, rfl⟩ := ih (fun other member => some_text other (List.mem_cons_of_mem _ member)) behind same
      exact ⟨rfl, rfl⟩

theorem mem_preorderInRow {nodes : List Node} {node : Node} (member : node ∈ nodes) : node ∈ preorderInRow nodes := by
  obtain ⟨before, after, rfl⟩ := List.append_of_mem member
  induction before with
  | nil => cases node <;> exact List.mem_cons_self
  | cons first before ih => exact List.mem_append_right _ (ih (List.mem_append_right _ List.mem_cons_self))

/-- Below a node in preorder come the nodes below its children. -/
theorem preorderInRow_children {roots children : List Node} {tag : Tag} {stop : Nat}
    (member : .element tag stop children ∈ preorderInRow roots) : preorderInRow children ⊆ preorderInRow roots := by
  induction roots using row_induction with
  | nil => exact absurd member List.not_mem_nil
  | comment span rest ih =>
    rcases List.mem_cons.mp member with own | later
    · exact Node.noConfusion own
    · exact List.subset_cons_of_subset _ (ih later)
  | element own stop' children' rest ihChildren ih =>
    rcases List.mem_append.mp member with here | later
    · rcases List.mem_cons.mp here with same | below
      · obtain ⟨rfl, rfl, rfl⟩ := Node.element.inj same
        exact List.subset_append_of_subset_left _ (List.subset_cons_self _ _)
      · exact List.subset_append_of_subset_left _ (List.subset_cons_of_subset _ (ihChildren below))
    · exact List.subset_append_of_subset_right _ (ih later)

theorem Siblings.subset_preorder {roots row : List Node} (siblings : Siblings roots row) :
    preorderInRow row ⊆ preorderInRow roots := by
  induction siblings with
  | roots => exact List.Subset.refl _
  | children _ member ih => exact preorderInRow_children (ih (mem_preorderInRow member))

namespace Scan

/-- What was read as raw content. -/
theorem rawContent_of_token? {t rest content : Text} {tag : WrittenTag}
    (read : token? t = some (.rawElement tag content, rest)) :
    rawContent tag.name.lower (content ++ rest) = (content, rest) := by
  have legible := token?_legible read
  have spelled := token?_spells read
  rw [Token.text, List.append_assoc] at spelled
  rw [spelled, token?_startTag legible.1, element?, startTag?_text legible.1, Option.map_some] at read
  simp only [legible.2, if_true] at read
  obtain ⟨same, last⟩ := Prod.mk.inj (Option.some.inj read)
  exact Prod.ext (Token.rawElement.inj same).2 last

end Scan

section

variable {source : Text} {before after : List Token} {tag : WrittenTag} {content : Text}

/-- A raw element is an element without children that ends behind its content. -/
theorem raw_element_mem (split : Scan.tokens source = before ++ .rawElement tag content :: after) :
    .element (tag.located (spelling before).byteSize) (spelling (before ++ [.rawElement tag content])).byteSize [] ∈
      preorderInRow source.nodes := by
  obtain ⟨left, formed⟩ := formed_nodes source
  have opens : .tag (tag.located (spelling before).byteSize) ∈ (preorderInRow source.nodes).map Node.opening := by
    rw [formed.preorder, split, openings_append, Nat.zero_add]
    exact List.mem_append_right _ List.mem_cons_self
  obtain ⟨node, member, opening⟩ := List.mem_map.mp opens
  cases node with
  | comment span => cases opening
  | element own stop children =>
    obtain rfl := Opening.tag.inj opening
    have size : source.byteSize = (spelling (Scan.tokens source)).byteSize := by rw [spelling, Scan.tokens_spells]
    have stretch : Stretch (Scan.tokens source) [] (Scan.tokens source) [] [] 0 :=
      ⟨(List.append_nil _).symm, rfl, rfl⟩
    obtain ⟨before', first, after', split', closed⟩ :=
      formed.closed_elements size (Scan.tokens_legible source) stretch (.inr (.inl rfl)) member
    have same (place : (spelling before).byteSize = (spelling before').byteSize) :
        before = before' ∧ .rawElement tag content = first :=
      split_unique (split ▸ Scan.tokens_text_ne_nil source) (split.symm.trans split') place
    generalize element_eq : Node.element (tag.located _) stop children = element at closed
    cases closed with
    | whole =>
      have place := congrArg (fun own => own.span.start) (Node.element.inj element_eq).1
      cases (same place).2
    | ended =>
      have place := congrArg (fun own => own.span.start) (Node.element.inj element_eq).1
      cases (same place).2
    | raw =>
      have place := congrArg (fun own => own.span.start) (Node.element.inj element_eq).1
      obtain ⟨rfl, eq⟩ := same place
      rw [element_eq, ← eq] at member
      exact (Token.rawElement.inj eq).1 ▸ member

/-- Comments and start tags lie in front of raw content or behind it. -/
theorem openings_apart (split : Scan.tokens source = before ++ .rawElement tag content :: after) {node : Node}
    (member : node ∈ preorderInRow source.nodes) : node.opening.span.Apart (contentSpan before tag content) := by
  obtain ⟨left, formed⟩ := formed_nodes source
  have among : node.opening ∈ openings 0 (Scan.tokens source) := formed.preorder ▸ List.mem_map_of_mem member
  rw [split, openings_append, Nat.zero_add] at among
  rw [Span.Apart, contentSpan, byteSize_spelling_append, byteSize_spelling_singleton]
  rcases List.mem_append.mp among with ahead | among
  · have within := openings_within ahead
    exact .inl (by simp only; omega)
  · rcases List.mem_cons.mp among with own | behind
    · rw [own]
      exact .inl (Nat.le_refl _)
    · exact .inr (openings_within behind).1

theorem RowOutside.mem_preorder {names : DirectiveNames} {hidden : List Node → List Node → Prop}
    {roots first rest : List Node} {node : Node} (reached : RowOutside names hidden roots (first ++ node :: rest)) :
    node ∈ preorderInRow roots :=
  reached.siblings.subset_preorder (mem_preorderInRow (List.mem_append_right _ List.mem_cons_self))

/-- Directives are comments, or attributes of start tags. -/
theorem Outside.in_opening {names : DirectiveNames} {hidden : List Node → List Node → Prop} {passage : Passage}
    (outside : Outside names source hidden source.nodes passage) :
    ∃ node ∈ preorderInRow source.nodes,
      node.opening.span.start ≤ passage.span.start ∧ passage.span.stop ≤ node.opening.span.stop := by
  cases outside with
  | inTag reached _ _ statement =>
    have sound := element_sound reached.siblings (List.mem_append_right _ List.mem_cons_self)
    have within := sound.inside _ (mem_attributes_of_statement statement)
    refine ⟨_, reached.mem_preorder, ?_⟩
    simp only [Node.opening, Opening.span]
    omega
  | statement reached => exact ⟨_, reached.mem_preorder, Nat.le_refl _, Nat.le_refl _⟩
  | ending reached => exact ⟨_, reached.mem_preorder, Nat.le_refl _, Nat.le_refl _⟩

theorem Outside.apart {names : DirectiveNames} {hidden : List Node → List Node → Prop} {passage : Passage}
    (split : Scan.tokens source = before ++ .rawElement tag content :: after)
    (outside : Outside names source hidden source.nodes passage) :
    passage.span.Apart (contentSpan before tag content) := by
  obtain ⟨node, member, lower, upper⟩ := outside.in_opening
  rcases openings_apart split member with ahead | behind
  · exact .inl (Nat.le_trans upper ahead)
  · exact .inr (Nat.le_trans behind lower)

end

theorem angle_not_mem_lower {tag : WrittenTag} (opens : tag.opensRawText = true) : '<' ∉ tag.name.lower := by
  simp only [WrittenTag.opensRawText, rawTextElements, Bool.and_eq_true, List.contains_iff_mem, List.mem_cons,
    List.not_mem_nil, or_false] at opens
  rcases opens.2 with named | named <;> rw [named] <;> decide

/-- Every element of a script or style is one piece with all its content, in which no comment, no other element and no
directive is found. The content ends with the first bracket behind the first `</` and name, however the name goes on
there. That is the end tag that is meant just if the content ends with an end tag of the element, or with the source. -/
theorem raw_content_passed_over (source : Text) :
    (∀ tag, .startTag tag ∈ Scan.tokens source → tag.opensRawText = false) ∧
    ∀ before tag content after, Scan.tokens source = before ++ .rawElement tag content :: after →
      tag.opensRawText = true ∧ ThroughBracket tag.name content (spelling after) ∧
      (ThroughEndTag tag.name content (spelling after) ↔ spelling after = [] ∨ ∃ inner written gap,
        content = inner ++ (Token.endTag written gap).text ∧ SameName written tag.name ∧
          ∀ c ∈ gap, isGap c = true) ∧
      .element (tag.located (spelling before).byteSize) (contentSpan before tag content).stop [] ∈
        preorderInRow source.nodes ∧
      (∀ node ∈ preorderInRow source.nodes, node.opening.span.Apart (contentSpan before tag content)) ∧
      ∀ names hidden passage, Outside names source hidden source.nodes passage →
        passage.span.Apart (contentSpan before tag content) := by
  have legible := Scan.tokens_legible source
  refine ⟨fun tag member => (legible _ member).2, fun before tag content after split => ?_⟩
  have opens : tag.opensRawText = true :=
    (legible (.rawElement tag content) (split ▸ List.mem_append_right _ List.mem_cons_self)).2
  have noBracket := Scan.bracket_not_mem_lower opens
  have ends : ThroughBracket tag.name content (spelling after) := by
    have read := Scan.rawContent_of_token? (Scan.token?_of_tokens (Scan.tokens_after split))
    have taken := Scan.rawContent_throughBracket noBracket (content ++ spelling after)
    rwa [read] at taken
  exact ⟨opens, ends, ends.throughEndTag_iff noBracket (angle_not_mem_lower opens), raw_element_mem split,
    fun _ => openings_apart split, fun _ _ _ => Outside.apart split⟩

/-- The name of the end tag is in upper case, with a blank behind it. -/
theorem raw_content_passed_over_to_upper_case :
    let source : Text := "<script>'<b if=x>'</SCRIPT\t><p>"
    let tag : WrittenTag := ⟨"script", [], "", false⟩
    let content : Text := "'<b if=x>'</SCRIPT\t>"
    Scan.tokens source = [] ++ .rawElement tag content :: [.startTag ⟨"p", [], "", false⟩] ∧
      ThroughEndTag tag.name content "<p>" ∧
      .element (tag.located 0) 28 [] ∈ preorderInRow source.nodes := by
  intro source tag content
  have split : Scan.tokens source = [] ++ .rawElement tag content :: [.startTag ⟨"p", [], "", false⟩] := by
    decide +kernel
  have stop : (contentSpan [] tag content).stop = 28 := by decide +kernel
  obtain ⟨_, _, meant, element, _⟩ := (raw_content_passed_over source).2 _ _ _ _ split
  rw [stop] at element
  exact ⟨split, meant.mpr (.inr ⟨"'<b if=x>'", "SCRIPT", "\t", rfl, rfl, List.all_eq_true.mp rfl⟩), element⟩

/-- Content that ends in front of the end tag of its element, since another name begins with the name. -/
theorem raw_content_cut_short :
    let source : Text := "<script></scripts><b></script>"
    let tag : WrittenTag := ⟨"script", [], "", false⟩
    let content : Text := "</scripts>"
    let after : List Token := [.startTag ⟨"b", [], "", false⟩, .endTag "script" ""]
    Scan.tokens source = .rawElement tag content :: after ∧ ¬ ThroughEndTag tag.name content (spelling after) := by
  intro source tag content after
  refine ⟨by decide +kernel, fun meant => ?_⟩
  have some_rest : spelling after ≠ [] := nofun
  generalize eq : content = read at meant
  generalize spelling after = rest at meant some_rest
  cases meant with
  | unclosed => exact some_rest rfl
  | @closed inner written gap _ same blank _ =>
    have size : written.length = 6 := by
      have lengths := congrArg List.length (show Text.lower written = "script".toList from same)
      rwa [Text.lower, List.length_map] at lengths
    cases inner with
    | nil =>
      -- what is left behind the name is no white space
      have name : "script".toList ++ ['s', '>'] = written ++ (gap ++ ['>']) := by
        rw [← List.append_assoc]
        exact (List.cons.inj (List.cons.inj eq).2).2
      obtain ⟨_, left⟩ := List.append_inj name size.symm
      cases gap with
      | nil => cases left
      | cons c gap =>
        obtain ⟨rfl, _⟩ := List.cons.inj left
        exact absurd (blank _ List.mem_cons_self) (by decide)
    | cons c inner =>
      have later : '<' ∈ inner ++ (Token.endTag written gap).text := List.mem_append_right _ List.mem_cons_self
      have inside : inner ++ (Token.endTag written gap).text = "/scripts>".toList := (List.cons.inj eq).2.symm
      exact absurd (inside ▸ later) (by decide)

end MarkupTemplates
