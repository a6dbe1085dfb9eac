import MarkupTemplates.Markup.Forest

namespace MarkupTemplates

/-- What pieces in a row spell. -/
def spelling (tokens : List Token) : Text := tokens.flatMap Token.text

theorem spelling_nil : spelling [] = [] := rfl

theorem spelling_cons (token : Token) (rest : List Token) :
    spelling (token :: rest) = token.text ++ spelling rest := rfl

theorem spelling_append (first second : List Token) :
    spelling (first ++ second) = spelling first ++ spelling second := List.flatMap_append

theorem byteSize_spelling_cons (token : Token) (rest : List Token) :
    (spelling (token :: rest)).byteSize = token.text.byteSize + (spelling rest).byteSize :=
  Text.byteSize_append ..

theorem byteSize_spelling_append (first second : List Token) :
    (spelling (first ++ second)).byteSize = (spelling first).byteSize + (spelling second).byteSize := by
  rw [spelling_append, Text.byteSize_append]

/-- Names of elements are the same if they differ in the case of ASCII letters alone. -/
def SameName (a b : Text) : Prop := a.lower = b.lower

instance (a b : Text) : Decidable (SameName a b) := inferInstanceAs (Decidable (a.lower = b.lower))

/-- How pieces that stand at byte `start`, inside open elements of the names `outer`, make up nodes
in a row. The elements that are still open after the last piece are named last, from the inside
out. An end tag that follows can close one of them, or close all of them from outside. -/
inductive Formed : List Text → Nat → List Token → List Node → List Text → Prop
  | done {outer start} : Formed outer start [] [] []
  | plain {outer start text rest nodes left} :
      Formed outer (start + Text.byteSize text) rest nodes left →
      Formed outer start (.plain text :: rest) nodes left
  | stray {outer start name gap rest nodes left} :
      (∀ other ∈ outer, ¬ SameName other name) →
      Formed outer (start + (Token.endTag name gap).text.byteSize) rest nodes left →
      Formed outer start (.endTag name gap :: rest) nodes left
  | comment {outer start text rest nodes left} :
      Formed outer (start + Text.byteSize text) rest nodes left →
      Formed outer start (.comment text :: rest)
        (.comment ⟨start, start + Text.byteSize text⟩ :: nodes) left
  | whole {outer start tag rest nodes left} :
      tag.isWhole = true → Formed outer (start + tag.text.byteSize) rest nodes left →
      Formed outer start (.startTag tag :: rest)
        (.element (tag.located start) (start + tag.text.byteSize) [] :: nodes) left
  | raw {outer start tag content rest nodes left} :
      Formed outer (start + (Token.rawElement tag content).text.byteSize) rest nodes left →
      Formed outer start (.rawElement tag content :: rest)
        (.element (tag.located start) (start + (Token.rawElement tag content).text.byteSize) [] :: nodes)
        left
  | closed {outer start tag inner children inside name gap rest nodes left} :
      tag.isWhole = false →
      Formed (tag.name :: outer) (start + tag.text.byteSize) inner children inside →
      (∀ other ∈ inside, ¬ SameName other name) → SameName tag.name name →
      Formed outer (start + (spelling (.startTag tag :: inner ++ [.endTag name gap])).byteSize) rest nodes
        left →
      Formed outer start (.startTag tag :: inner ++ .endTag name gap :: rest)
        (.element (tag.located start)
          (start + (spelling (.startTag tag :: inner ++ [.endTag name gap])).byteSize) children :: nodes) left
  | unclosed {outer start tag inner children inside} :
      tag.isWhole = false →
      Formed (tag.name :: outer) (start + tag.text.byteSize) inner children inside →
      Formed outer start (.startTag tag :: inner)
        [.element (tag.located start) (start + (spelling (.startTag tag :: inner)).byteSize) children]
        (inside ++ [tag.name])

namespace Growth

/-- The names of the open elements, from the inside out. -/
def names (g : Growth) : List Text := g.unclosed.map fun entry => entry.1.name

/-- Closes the innermost open element. -/
def closeTop (stop : Nat) : Growth → Growth
  | ⟨[], roots⟩ => ⟨[], roots⟩
  | ⟨(tag, children) :: outer, roots⟩ => add [.element tag stop children] ⟨outer, roots⟩

/-- Closes a number of open elements, all at the same place. -/
def settle (stop : Nat) : Nat → Growth → Growth
  | 0, g => g
  | n + 1, g => settle stop n (g.closeTop stop)

/-- The forest grown by pieces in a row. -/
def run (g : Growth) (start : Nat) : List Token → Growth
  | [] => g
  | token :: rest => run (g.take start token) (start + token.text.byteSize) rest

theorem add_nil (g : Growth) : g.add [] = g := by
  obtain ⟨_ | ⟨⟨tag, children⟩, outer⟩, roots⟩ := g <;> simp only [add, List.append_nil]

theorem add_add (g : Growth) (first second : List Node) :
    (g.add first).add second = g.add (first ++ second) := by
  obtain ⟨_ | ⟨⟨tag, children⟩, outer⟩, roots⟩ := g <;> simp only [add, List.append_assoc]

theorem names_add (g : Growth) (nodes : List Node) : (g.add nodes).names = g.names := by
  obtain ⟨_ | ⟨⟨tag, children⟩, outer⟩, roots⟩ := g <;> rfl

theorem settle_succ (stop n : Nat) (g : Growth) :
    g.settle stop (n + 1) = (g.settle stop n).closeTop stop := by
  induction n generalizing g with
  | zero => rfl
  | succ n ih => rw [settle, ih, ← settle]

theorem run_append (g : Growth) (start : Nat) (first second : List Token) :
    g.run start (first ++ second) =
      (g.run start first).run (start + (spelling first).byteSize) second := by
  induction first generalizing g start with
  | nil => rfl
  | cons token first ih =>
    rw [List.cons_append, run, ih, run, byteSize_spelling_cons, Nat.add_assoc]

theorem take_whole {g : Growth} {start : Nat} {tag : WrittenTag} (whole : tag.isWhole = true) :
    g.take start (.startTag tag) =
      g.add [.element (tag.located start) (start + tag.text.byteSize) []] := by
  simp only [take, whole, if_true, Token.text]

theorem take_open {g : Growth} {start : Nat} {tag : WrittenTag} (open_tag : tag.isWhole = false) :
    g.take start (.startTag tag) = ⟨(tag.located start, []) :: g.unclosed, g.roots⟩ := by
  simp only [take, open_tag, Bool.false_eq_true, if_false]

/-- An end tag closes one element after the other until it finds its own. -/
theorem closeUntil_eq (named : Text → Bool) {start stop : Nat} {carried : List Node}
    {passed outer : List (Tag × List Node)} {found : Tag × List Node} {roots : List Node}
    (others : ∀ entry ∈ passed, named entry.1.name = false) (own : named found.1.name = true) :
    closeUntil named start stop carried (passed ++ found :: outer) roots =
      ((add carried ⟨passed ++ found :: outer, roots⟩).settle start passed.length).closeTop stop := by
  induction passed generalizing carried with
  | nil => simp only [List.nil_append, closeUntil, own, if_true, add, settle, List.length_nil, closeTop]
  | cons first passed ih =>
    have other := others first List.mem_cons_self
    simp only [List.cons_append, closeUntil, other, Bool.false_eq_true, if_false, List.length_cons,
      settle, add, closeTop]
    exact ih fun entry member => others entry (List.mem_cons_of_mem _ member)

/-- The end of the source closes everything. -/
theorem closeUntil_none (stop : Nat) (carried : List Node) (unclosed : List (Tag × List Node))
    (roots : List Node) : closeUntil (fun _ => false) stop stop carried unclosed roots =
      (add carried ⟨unclosed, roots⟩).settle stop unclosed.length := by
  induction unclosed generalizing carried with
  | nil => simp only [closeUntil, add, settle, List.length_nil]
  | cons first unclosed ih =>
    simp only [closeUntil, Bool.false_eq_true, if_false, List.length_cons, settle, add, closeTop]
    exact ih _

theorem finish_eq (g : Growth) (start : Nat) (tokens : List Token) :
    g.finish start tokens =
      ((g.run start tokens).settle (start + (spelling tokens).byteSize)
        (g.run start tokens).unclosed.length).roots := by
  induction tokens generalizing g start with
  | nil => rw [finish, closeUntil_none, add_nil, run, spelling_nil, Text.byteSize_nil, Nat.add_zero]
  | cons token rest ih => rw [finish, ih, run, byteSize_spelling_cons, Nat.add_assoc]

theorem close_stray {g : Growth} {name : Text} {start stop : Nat}
    (none : ∀ other ∈ g.names, ¬ SameName other name) : g.close name start stop = g := by
  rw [close, if_neg]
  rw [Bool.not_eq_true, List.any_eq_false]
  intro entry member
  simpa [SameName] using none entry.1.name (List.mem_map_of_mem member)

theorem close_own {g : Growth} {name own : Text} (start stop : Nat) {inside outer : List Text}
    (open_names : g.names = inside ++ own :: outer)
    (others : ∀ other ∈ inside, ¬ SameName other name) (same : SameName own name) :
    g.close name start stop = (g.settle start inside.length).closeTop stop := by
  obtain ⟨passed, rest, split, rfl, atRest⟩ := List.map_eq_append_iff.mp open_names
  obtain ⟨found, outer', rfl, rfl, rfl⟩ := List.map_eq_cons_iff.mp atRest
  have found_some : g.unclosed.any (fun entry => decide (entry.1.name.lower = name.lower)) = true := by
    rw [List.any_eq_true]
    exact ⟨found, by rw [split]; exact List.mem_append_right _ List.mem_cons_self, decide_eq_true same⟩
  obtain ⟨unclosed, roots⟩ := g
  subst split
  have other : ∀ entry ∈ passed, decide (entry.1.name.lower = name.lower) = false :=
    fun entry member => decide_eq_false (others entry.1.name (List.mem_map_of_mem member))
  rw [close, if_pos found_some, closeUntil_eq (fun tagName => decide (tagName.lower = name.lower)) other
    (decide_eq_true same), add_nil, List.length_map]

/-- Pieces between a start tag and its end tag are the content of one element, with whatever they leave open. -/
theorem run_closed {g : Growth} {start : Nat} {tag : WrittenTag} {inner : List Token} {children : List Node}
    {name gap : Text} {inside outer : List Text} (open_tag : tag.isWhole = false)
    (names : (run ⟨(tag.located start, []) :: g.unclosed, g.roots⟩ (start + tag.text.byteSize) inner).names =
      inside ++ tag.name :: outer)
    (settled : (run ⟨(tag.located start, []) :: g.unclosed, g.roots⟩ (start + tag.text.byteSize) inner).settle
      (start + tag.text.byteSize + (spelling inner).byteSize) inside.length =
        ⟨(tag.located start, children) :: g.unclosed, g.roots⟩)
    (others : ∀ other ∈ inside, ¬ SameName other name) (same : SameName tag.name name) :
    g.run start (.startTag tag :: inner ++ [.endTag name gap]) =
      g.add [.element (tag.located start)
        (start + (spelling (.startTag tag :: inner ++ [.endTag name gap])).byteSize) children] := by
  have size : start + (spelling (.startTag tag :: inner)).byteSize =
      start + tag.text.byteSize + (spelling inner).byteSize := by
    rw [byteSize_spelling_cons, Token.text, Nat.add_assoc]
  have closed := close_own (start + tag.text.byteSize + (spelling inner).byteSize)
    (start + tag.text.byteSize + (spelling inner).byteSize + (Token.endTag name gap).text.byteSize) names others same
  rw [settled, closeTop] at closed
  rw [run_append, size, byteSize_spelling_append, byteSize_spelling_cons (.endTag name gap), spelling_nil,
    Text.byteSize_nil, Nat.add_zero, ← Nat.add_assoc, size, run, run, run, take_open open_tag]
  exact closed

end Growth

/-- Reading formed pieces adds their nodes. What is left open is added by closing it where the pieces
end. -/
theorem Formed.run {outer : List Text} {start : Nat} {tokens : List Token} {nodes : List Node}
    {left : List Text} (formed : Formed outer start tokens nodes left) {g : Growth}
    (inside : g.names = outer) :
    (g.run start tokens).names = left ++ outer ∧
      (g.run start tokens).settle (start + (spelling tokens).byteSize) left.length = g.add nodes := by
  induction formed generalizing g with
  | done => exact ⟨inside, (g.add_nil).symm⟩
  | @plain outer start text rest nodes left _ ih =>
    rw [Growth.run, byteSize_spelling_cons, ← Nat.add_assoc]
    exact ih inside
  | @stray outer start name gap rest nodes left others _ ih =>
    have same : g.take start (.endTag name gap) = g := Growth.close_stray (by rw [inside]; exact others)
    rw [Growth.run, same, byteSize_spelling_cons, ← Nat.add_assoc]
    exact ih inside
  | @comment outer start text rest nodes left _ ih =>
    rw [Growth.run, byteSize_spelling_cons, ← Nat.add_assoc, ← List.singleton_append (l := nodes),
      ← Growth.add_add]
    exact ih ((Growth.names_add ..).trans inside)
  | @whole outer start tag rest nodes left whole _ ih =>
    rw [Growth.run, Growth.take_whole whole, byteSize_spelling_cons, ← Nat.add_assoc, ← List.singleton_append (l := nodes),
      ← Growth.add_add]
    exact ih ((Growth.names_add ..).trans inside)
  | @raw outer start tag content rest nodes left _ ih =>
    rw [Growth.run, byteSize_spelling_cons, ← Nat.add_assoc, ← List.singleton_append (l := nodes),
      ← Growth.add_add]
    exact ih ((Growth.names_add ..).trans inside)
  | @closed outer start tag inner children within name gap rest nodes left open_tag _ others same _
      ihInner ihRest =>
    obtain ⟨names, settled⟩ := ihInner (g := ⟨(tag.located start, []) :: g.unclosed, g.roots⟩)
      (by rw [← inside]; rfl)
    rw [Growth.add, List.nil_append] at settled
    rw [List.append_cons, Growth.run_append, Growth.run_closed open_tag names settled others same,
      byteSize_spelling_append _ rest, ← Nat.add_assoc, ← List.singleton_append (l := nodes), ← Growth.add_add]
    exact ihRest ((Growth.names_add ..).trans inside)
  | @unclosed outer start tag inner children within open_tag _ ih =>
    obtain ⟨names, settled⟩ := ih (g := ⟨(tag.located start, []) :: g.unclosed, g.roots⟩)
      (by rw [← inside]; rfl)
    rw [Growth.add, List.nil_append] at settled
    rw [Growth.run, Growth.take_open open_tag, byteSize_spelling_cons, Token.text, ← Nat.add_assoc, List.length_append,
      List.length_singleton, Growth.settle_succ, List.append_assoc, List.singleton_append]
    exact ⟨names, by rw [settled, Growth.closeTop]⟩

/-- The forest of pieces is the one that they form. -/
theorem Formed.finish {start : Nat} {tokens : List Token} {nodes : List Node} {left : List Text}
    (formed : Formed [] start tokens nodes left) : Growth.finish ⟨[], []⟩ start tokens = nodes := by
  obtain ⟨names, settled⟩ := formed.run (g := ⟨[], []⟩) rfl
  have count : (Growth.run ⟨[], []⟩ start tokens).unclosed.length = left.length := by
    have := congrArg List.length names
    rwa [Growth.names, List.length_map, List.append_nil] at this
  rw [Growth.finish_eq, count, settled]
  rfl

/-- Pieces in a row form nodes, all of them or up to an end tag that closes an element outside. -/
theorem exists_formed (outer : List Text) (start : Nat) (tokens : List Token) :
    ∃ inner rest nodes left, tokens = inner ++ rest ∧ Formed outer start inner nodes left ∧
      (rest = [] ∨ ∃ name gap after, rest = .endTag name gap :: after ∧
        (∃ other ∈ outer, SameName other name) ∧ ∀ other ∈ left, ¬ SameName other name) := by
  match tokens with
  | [] => exact ⟨[], [], [], [], rfl, .done, Or.inl rfl⟩
  | .plain text :: rest =>
    obtain ⟨inner, after, nodes, left, rfl, formed, stop⟩ :=
      exists_formed outer (start + Text.byteSize text) rest
    exact ⟨_, after, nodes, left, rfl, .plain formed, stop⟩
  | .comment text :: rest =>
    obtain ⟨inner, after, nodes, left, rfl, formed, stop⟩ :=
      exists_formed outer (start + Text.byteSize text) rest
    exact ⟨_, after, _, left, rfl, .comment formed, stop⟩
  | .rawElement tag content :: rest =>
    obtain ⟨inner, after, nodes, left, rfl, formed, stop⟩ :=
      exists_formed outer (start + (Token.rawElement tag content).text.byteSize) rest
    exact ⟨_, after, _, left, rfl, .raw formed, stop⟩
  | .endTag name gap :: rest =>
    by_cases found : ∃ other ∈ outer, SameName other name
    · exact ⟨[], .endTag name gap :: rest, [], [], rfl, .done,
        Or.inr ⟨name, gap, rest, rfl, found, fun other member => absurd member List.not_mem_nil⟩⟩
    · obtain ⟨inner, after, nodes, left, rfl, formed, stop⟩ :=
        exists_formed outer (start + (Token.endTag name gap).text.byteSize) rest
      exact ⟨_, after, nodes, left, rfl,
        .stray (fun other member same => found ⟨other, member, same⟩) formed, stop⟩
  | .startTag tag :: rest =>
    cases whole : tag.isWhole with
    | true =>
      obtain ⟨inner, after, nodes, left, rfl, formed, stop⟩ :=
        exists_formed outer (start + tag.text.byteSize) rest
      exact ⟨_, after, _, left, rfl, .whole whole formed, stop⟩
    | false =>
      obtain ⟨inner, after, children, inside, split, formed, stop⟩ :=
        exists_formed (tag.name :: outer) (start + tag.text.byteSize) rest
      rcases stop with none | ⟨name, gap, tail, closing, ⟨other, member, same⟩, others⟩
      · exact ⟨.startTag tag :: inner, [], _, _, by rw [split, none]; simp, .unclosed whole formed,
          Or.inl rfl⟩
      · by_cases own : SameName tag.name name
        · obtain ⟨following, after', nodes, left, eq, formed', stop'⟩ := exists_formed outer
            (start + (spelling (.startTag tag :: inner ++ [.endTag name gap])).byteSize) tail
          exact ⟨.startTag tag :: inner ++ .endTag name gap :: following, after', _, left,
            by rw [split, closing, eq]; simp, .closed whole formed others own formed', stop'⟩
        · -- the end tag closes an element outside, and with it this one
          have outside : other ∈ outer := by
            rcases List.mem_cons.mp member with rfl | outside
            · exact absurd same own
            · exact outside
          refine ⟨.startTag tag :: inner, after, _, _, by rw [split]; rfl, .unclosed whole formed,
            Or.inr ⟨name, gap, tail, closing, ⟨other, outside, same⟩, ?_⟩⟩
          intro other' member'
          rcases List.mem_append.mp member' with among | last
          · exact others other' among
          · rw [List.mem_singleton.mp last]
            exact own
termination_by tokens.length
decreasing_by all_goals subst_vars; simp only [List.length_cons, List.length_append]; omega

/-- A document is formed by its pieces. -/
theorem formed_nodes (source : Text) :
    ∃ left, Formed [] 0 (Scan.tokens source) source.nodes left := by
  obtain ⟨inner, rest, nodes, left, split, formed, stop⟩ := exists_formed [] 0 (Scan.tokens source)
  rcases stop with rfl | ⟨_, _, _, _, ⟨other, member, _⟩, _⟩
  · rw [List.append_nil] at split
    have same : source.nodes = nodes := by
      rw [Text.nodes, split]
      exact formed.finish
    exact ⟨left, by rw [same, split]; exact formed⟩
  · exact absurd member List.not_mem_nil

end MarkupTemplates
