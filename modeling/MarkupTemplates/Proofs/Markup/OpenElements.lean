import Mathlib.Data.List.TakeWhile
import MarkupTemplates.Proofs.Markup.Siblings
import MarkupTemplates.Proofs.Text.Bytes

namespace MarkupTemplates

/-- The elements that are open behind a piece at byte `start`, from the inside out, if `opened` are those in
front of it. An end tag closes the innermost one of its name and those inside that one. -/
def Token.leavesOpen (start : Nat) (opened : List Tag) : Token → List Tag
  | startTag tag => if tag.isWhole then opened else tag.located start :: opened
  | endTag name _ =>
    match opened.dropWhile fun tag => ¬ SameName tag.name name with
    | [] => opened
    | _ :: outer => outer
  | _ => opened

/-- The elements that are open behind pieces in a row, the first one at byte `start`. -/
def openFrom (start : Nat) (opened : List Tag) : List Token → List Tag
  | [] => opened
  | token :: rest => openFrom (start + token.text.byteSize) (token.leavesOpen start opened) rest

/-- The elements that are open behind the first pieces of a document, from the inside out. -/
def openBehind (pieces : List Token) : List Tag := openFrom 0 [] pieces

theorem openFrom_append (start : Nat) (opened : List Tag) (first second : List Token) :
    openFrom start opened (first ++ second) =
      openFrom (start + (spelling first).byteSize) (openFrom start opened first) second := by
  induction first generalizing start opened with
  | nil => rfl
  | cons token first ih => rw [List.cons_append, openFrom, ih, openFrom, byteSize_spelling_cons, Nat.add_assoc]

theorem openBehind_append (first second : List Token) :
    openBehind (first ++ second) = openFrom (spelling first).byteSize (openBehind first) second := by
  rw [openBehind, openFrom_append, Nat.zero_add, openBehind]

namespace Token

variable {start : Nat} {opened inside outer : List Tag} {own : Tag} {name : Text} {tag : WrittenTag}

theorem byteSize_startTag_pos (tag : WrittenTag) : 0 < (startTag tag).text.byteSize :=
  Text.byteSize_pos (by simp [text, WrittenTag.text])

theorem leavesOpen_whole (whole : tag.isWhole = true) : (startTag tag).leavesOpen start opened = opened := by
  rw [leavesOpen, if_pos whole]

theorem leavesOpen_start (open_tag : tag.isWhole = false) :
    (startTag tag).leavesOpen start opened = tag.located start :: opened := by
  rw [leavesOpen, if_neg (by simp [open_tag])]

theorem leavesOpen_stray (gap : Text) (others : ∀ other ∈ opened, ¬ SameName other.name name) :
    (endTag name gap).leavesOpen start opened = opened := by
  rw [leavesOpen, List.dropWhile_eq_nil_iff.mpr fun tag member => decide_eq_true (others tag member)]

theorem leavesOpen_own (gap : Text) (others : ∀ other ∈ inside, ¬ SameName other.name name)
    (same : SameName own.name name) :
    (endTag name gap).leavesOpen start (inside ++ own :: outer) = outer := by
  rw [leavesOpen, List.dropWhile_append_of_pos fun tag member => decide_eq_true (others tag member),
    List.dropWhile_cons_of_neg (by simpa using same)]

/-- An end tag finds an open element of its name, or there is none. -/
theorem finds (opened : List Tag) (name : Text) :
    (∀ other ∈ opened, ¬ SameName other.name name) ∨
      ∃ inside own outer, opened = inside ++ own :: outer ∧
        (∀ other ∈ inside, ¬ SameName other.name name) ∧ SameName own.name name := by
  let other (tag : Tag) : Bool := ¬ SameName tag.name name
  have split : opened.takeWhile other ++ opened.dropWhile other = opened := List.takeWhile_append_dropWhile
  have outside := List.head?_dropWhile_not other opened
  cases rest : opened.dropWhile other with
  | nil => exact .inl fun tag member => of_decide_eq_true (List.dropWhile_eq_nil_iff.mp rest tag member)
  | cons own outer =>
    rw [rest] at split outside
    refine .inr ⟨_, own, outer, split.symm, fun tag member => ?_, by simpa [other] using outside⟩
    exact of_decide_eq_true (List.mem_takeWhile_imp (p := other) member)

/-- A piece opens one element, or it leaves the outer ones of those that are open. -/
theorem leavesOpen_cases (start : Nat) (opened : List Tag) (token : Token) :
    (∃ tag, token = .startTag tag ∧ token.leavesOpen start opened = tag.located start :: opened) ∨
      token.leavesOpen start opened <:+ opened := by
  cases token with
  | startTag tag =>
    cases whole : tag.isWhole with
    | true =>
      rw [leavesOpen_whole whole]
      exact .inr (List.suffix_refl opened)
    | false => exact .inl ⟨tag, rfl, leavesOpen_start whole⟩
  | endTag name gap =>
    rcases finds opened name with none | ⟨inside, own, outer, rfl, others, same⟩
    · rw [leavesOpen_stray gap none]
      exact .inr (List.suffix_refl opened)
    · rw [leavesOpen_own gap others same]
      exact .inr ⟨inside ++ [own], by rw [List.append_assoc, List.singleton_append]⟩
  | _ => exact .inr (List.suffix_refl opened)

end Token

/-- What is open behind pieces was open in front of them or begins in them. -/
theorem mem_openFrom {start : Nat} {opened : List Tag} {pieces : List Token} {tag : Tag}
    (member : tag ∈ openFrom start opened pieces) : tag ∈ opened ∨ start ≤ tag.span.start := by
  induction pieces generalizing start opened with
  | nil => exact .inl member
  | cons token rest ih =>
    rcases ih member with member | later
    · rcases token.leavesOpen_cases start opened with ⟨written, _, eq⟩ | part
      · rw [eq] at member
        rcases List.mem_cons.mp member with rfl | member
        · exact .inr (Nat.le_refl start)
        · exact .inl member
      · exact .inl (part.subset member)
    · exact .inr (Nat.le_trans (Nat.le_add_right ..) later)

/-- Of two open elements the inner one begins later, and all of them before byte `start`. -/
def OpenBefore (start : Nat) (opened : List Tag) : Prop :=
  (opened.Pairwise fun inner outer => outer.span.start < inner.span.start) ∧
    ∀ tag ∈ opened, tag.span.start < start

theorem OpenBefore.after {start : Nat} {opened : List Tag} (known : OpenBefore start opened)
    (pieces : List Token) : OpenBefore (start + (spelling pieces).byteSize) (openFrom start opened pieces) := by
  induction pieces generalizing start opened with
  | nil => exact known
  | cons token rest ih =>
    rw [byteSize_spelling_cons, ← Nat.add_assoc]
    refine ih ?_
    rcases token.leavesOpen_cases start opened with ⟨written, rfl, eq⟩ | part
    · rw [eq]
      refine ⟨List.pairwise_cons.mpr ⟨known.2, known.1⟩, List.forall_mem_cons.mpr ⟨?_, fun tag member => ?_⟩⟩
      · exact Nat.lt_add_of_pos_right (Token.byteSize_startTag_pos written)
      · exact Nat.lt_add_right _ (known.2 tag member)
    · exact ⟨known.1.sublist part.sublist, fun tag member => Nat.lt_add_right _ (known.2 tag (part.subset member))⟩

theorem openBehind_before (pieces : List Token) : OpenBefore (spelling pieces).byteSize (openBehind pieces) := by
  have none : OpenBefore 0 [] := ⟨.nil, fun _ member => absurd member List.not_mem_nil⟩
  have known := none.after pieces
  rwa [Nat.zero_add] at known

/-- Formed pieces close nothing that is open in front of them. What they leave open they name. -/
theorem Formed.opens {outer left : List Text} {start : Nat} {pieces : List Token} {nodes : List Node}
    (formed : Formed outer start pieces nodes left) {opened : List Tag} (names : opened.map Tag.name = outer) :
    ∃ inside, openFrom start opened pieces = inside ++ opened ∧ inside.map Tag.name = left := by
  induction formed generalizing opened with
  | done => exact ⟨[], rfl, rfl⟩
  | plain _ ih => exact ih names
  | comment _ ih => exact ih names
  | raw _ ih => exact ih names
  | @stray outer start name gap rest nodes left others _ ih =>
    have passed : (Token.endTag name gap).leavesOpen start opened = opened :=
      Token.leavesOpen_stray gap fun tag member => others tag.name (names ▸ List.mem_map_of_mem member)
    rw [openFrom, passed]
    exact ih names
  | @whole outer start tag rest nodes left whole _ ih =>
    rw [openFrom, Token.leavesOpen_whole whole]
    exact ih names
  | @closed outer start tag inner children inside name gap rest nodes left open_tag _ others same _
      ihInner ihRest =>
    have inward : (tag.located start :: opened).map Tag.name = tag.name :: outer := by rw [← names]; rfl
    obtain ⟨within, atEnd, rfl⟩ := ihInner inward
    have closes (at_tag : Nat) :
        (Token.endTag name gap).leavesOpen at_tag (within ++ tag.located start :: opened) = opened :=
      Token.leavesOpen_own gap (fun other member => others other.name (List.mem_map_of_mem member)) same
    obtain ⟨last, eq, left_names⟩ := ihRest names
    refine ⟨last, ?_, left_names⟩
    have size : start + (spelling (.startTag tag :: inner ++ [.endTag name gap])).byteSize =
        start + (Token.startTag tag).text.byteSize + (spelling inner).byteSize +
          (Token.endTag name gap).text.byteSize := by
      rw [List.cons_append, byteSize_spelling_cons, byteSize_spelling_append, byteSize_spelling_singleton]
      omega
    rw [List.cons_append, openFrom, Token.leavesOpen_start open_tag, openFrom_append, Token.text, atEnd,
      openFrom, closes, ← eq, size, Token.text]
  | @unclosed outer start tag inner children inside open_tag _ ih =>
    have inward : (tag.located start :: opened).map Tag.name = tag.name :: outer := by rw [← names]; rfl
    obtain ⟨within, atEnd, rfl⟩ := ih inward
    refine ⟨within ++ [tag.located start], ?_, by rw [List.map_append]; rfl⟩
    rw [openFrom, Token.leavesOpen_start open_tag, Token.text, atEnd, List.append_assoc, List.singleton_append]

namespace Growth

/-- The open elements, from the inside out. -/
def tags (g : Growth) : List Tag := g.unclosed.map Prod.fst

theorem map_name_tags (g : Growth) : g.tags.map Tag.name = g.names := List.map_map ..

theorem tags_add (g : Growth) (nodes : List Node) : (g.add nodes).tags = g.tags := by
  obtain ⟨_ | ⟨⟨tag, children⟩, outer⟩, roots⟩ := g <;> rfl

theorem tags_closeTop (stop : Nat) (g : Growth) : (g.closeTop stop).tags = g.tags.tail := by
  obtain ⟨_ | ⟨⟨tag, children⟩, outer⟩, roots⟩ := g
  · rfl
  · exact tags_add ..

theorem tags_settle (stop n : Nat) (g : Growth) : (g.settle stop n).tags = g.tags.drop n := by
  induction n generalizing g with
  | zero => rfl
  | succ n ih => rw [settle, ih, tags_closeTop, List.drop_tail]

theorem tags_take (g : Growth) (start : Nat) (token : Token) :
    (g.take start token).tags = token.leavesOpen start g.tags := by
  cases token with
  | plain text => rfl
  | comment text => exact tags_add ..
  | rawElement tag content => exact tags_add ..
  | startTag tag =>
    cases whole : tag.isWhole with
    | true => rw [take_whole whole, tags_add, Token.leavesOpen_whole whole]
    | false =>
      rw [take_open whole, Token.leavesOpen_start whole]
      rfl
  | endTag name gap =>
    show (g.close name start _).tags = _
    rcases Token.finds g.tags name with none | ⟨inside, own, outer, split, others, same⟩
    · rw [Token.leavesOpen_stray gap none, close_stray (by rw [← map_name_tags]; simpa using none)]
    · have names : g.names = inside.map Tag.name ++ own.name :: outer.map Tag.name := by
        rw [← map_name_tags, split, List.map_append, List.map_cons]
      rw [split, Token.leavesOpen_own gap others same, close_own start _ names (by simpa using others) same,
        tags_closeTop, tags_settle, List.length_map, split, List.drop_left]
      rfl

/-- Reading pieces, the elements that are not closed yet are the open ones. -/
theorem tags_run (g : Growth) (start : Nat) (pieces : List Token) :
    (g.run start pieces).tags = openFrom start g.tags pieces := by
  induction pieces generalizing g start with
  | nil => rfl
  | cons token rest ih => rw [run, ih, tags_take, openFrom]

end Growth

end MarkupTemplates
