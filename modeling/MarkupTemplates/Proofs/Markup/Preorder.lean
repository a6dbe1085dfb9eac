import MarkupTemplates.Proofs.Markup.OpenElements
import MarkupTemplates.Proofs.Markup.Retagging
import MarkupTemplates.Proofs.ParsedTemplate.Inheritance

namespace MarkupTemplates

mutual

/-- A node and all nodes below it, each one in front of its children. -/
def Node.preorder : Node → List Node
  | .comment span => [.comment span]
  | .element tag stop children => .element tag stop children :: preorderInRow children

def preorderInRow : List Node → List Node
  | [] => []
  | node :: rest => node.preorder ++ preorderInRow rest

end

/-- What a node begins with: a comment as a whole, an element with its start tag. -/
inductive Opening where
  | comment (span : Span)
  | tag (tag : Tag)
  deriving DecidableEq, Repr

def Opening.start : Opening → Nat
  | comment span => span.start
  | .tag own => own.span.start

def Node.opening : Node → Opening
  | comment span => .comment span
  | element tag _ _ => .tag tag

/-- What a piece at byte `start` begins. The content of an element without markup inside is part of its piece. -/
def Token.opening? (start : Nat) : Token → Option Opening
  | comment text => some (.comment ⟨start, start + Text.byteSize text⟩)
  | startTag tag => some (.tag (tag.located start))
  | rawElement tag _ => some (.tag (tag.located start))
  | _ => none

/-- The comments and start tags among pieces in a row, the first one at byte `start`. -/
def openings (start : Nat) : List Token → List Opening
  | [] => []
  | token :: rest => (token.opening? start).toList ++ openings (start + token.text.byteSize) rest

theorem openings_append (start : Nat) (first second : List Token) :
    openings start (first ++ second) =
      openings start first ++ openings (start + (spelling first).byteSize) second := by
  induction first generalizing start with
  | nil => rfl
  | cons token first ih =>
    rw [List.cons_append, openings, ih, openings, byteSize_spelling_cons, List.append_assoc, Nat.add_assoc]

theorem Token.start_of_opening {start : Nat} {token : Token} {opening : Opening}
    (found : token.opening? start = some opening) : opening.start = start := by
  cases token with
  | comment text => exact Option.some.inj found ▸ rfl
  | startTag tag => exact Option.some.inj found ▸ rfl
  | rawElement tag content => exact Option.some.inj found ▸ rfl
  | endTag name gap => exact absurd found nofun
  | plain text => exact absurd found nofun

/-- Pieces that are not empty begin one thing after the other. -/
theorem openings_ordered {start : Nat} {pieces : List Token} (some_text : ∀ token ∈ pieces, token.text ≠ []) :
    (∀ opening ∈ openings start pieces, start ≤ opening.start) ∧
      (openings start pieces).Pairwise fun a b => a.start < b.start := by
  induction pieces generalizing start with
  | nil => exact ⟨fun _ member => absurd member List.not_mem_nil, .nil⟩
  | cons token rest ih =>
    obtain ⟨own, others⟩ := List.forall_mem_cons.mp some_text
    have size := Text.byteSize_pos own
    obtain ⟨later, ordered⟩ := ih others
    have first (opening : Opening) (member : opening ∈ (token.opening? start).toList) : opening.start = start :=
      Token.start_of_opening (Option.mem_toList.mp member)
    refine ⟨fun opening member => ?_, List.pairwise_append.mpr ⟨?_, ordered, fun a one b two => ?_⟩⟩
    · rcases List.mem_append.mp member with member | member
      · exact Nat.le_of_eq (first opening member).symm
      · exact Nat.le_trans (Nat.le_add_right ..) (later opening member)
    · cases token.opening? start <;> simp
    · have := first a one
      have := later b two
      omega

/-- The nodes that pieces form begin, in preorder, with what the pieces begin. -/
theorem Formed.preorder {outer left : List Text} {start : Nat} {pieces : List Token} {nodes : List Node}
    (formed : Formed outer start pieces nodes left) :
    (preorderInRow nodes).map Node.opening = openings start pieces := by
  induction formed with
  | done => rfl
  | plain _ ih => exact ih
  | stray _ _ ih => exact ih
  | comment _ ih => exact congrArg (List.cons _) ih
  | whole _ _ ih => exact congrArg (List.cons _) ih
  | raw _ ih => exact congrArg (List.cons _) ih
  | @closed outer start tag inner children inside name gap rest nodes left _ _ _ _ _ ihInner ihRest =>
    have size : start + (spelling (.startTag tag :: inner ++ [.endTag name gap])).byteSize =
        start + (spelling (.startTag tag :: inner)).byteSize + (Token.endTag name gap).text.byteSize := by
      rw [byteSize_spelling_append, byteSize_spelling_singleton, Nat.add_assoc]
    rw [size] at ihRest
    have below : (preorderInRow children).map Node.opening =
        openings (start + (Token.startTag tag).text.byteSize) inner :=
      ihInner
    rw [openings_append, openings, openings, ← below]
    simp only [preorderInRow, Node.preorder, List.map_append, List.map_cons, ihRest]
    rfl
  | @unclosed outer start tag inner children inside _ _ ih =>
    have below : (preorderInRow children).map Node.opening =
        openings (start + (Token.startTag tag).text.byteSize) inner :=
      ih
    rw [openings, ← below]
    simp only [preorderInRow, Node.preorder, List.append_nil, List.map_cons]
    rfl

/-- How an element ends that begins with `own`, the last of the pieces `ahead`, if `after` is the rest of the
source. It is open throughout the pieces that are named next, and ends at the byte that is named last. -/
inductive Ending (source : Text) (own : Tag) (ahead after : List Token) : List Token → Nat → Prop
  /-- An end tag names it while it is the innermost open element of its name. -/
  | named {inner rest : List Token} {inside outer : List Tag} {name gap : Text} :
      after = inner ++ .endTag name gap :: rest → openBehind (ahead ++ inner) = inside ++ own :: outer →
      (∀ other ∈ inside, ¬ SameName other.name name) → SameName own.name name →
      Ending source own ahead after inner (spelling (ahead ++ inner ++ [.endTag name gap])).byteSize
  /-- An end tag closes an element around it. -/
  | around {inner rest : List Token} {inside outer : List Tag} {name gap : Text} :
      after = inner ++ .endTag name gap :: rest → openBehind (ahead ++ inner) = inside ++ own :: outer →
      (∀ other ∈ inside ++ [own], ¬ SameName other.name name) → (∃ other ∈ outer, SameName other.name name) →
      Ending source own ahead after inner (spelling (ahead ++ inner)).byteSize
  /-- The source ends. -/
  | atEnd : own ∈ openBehind (ahead ++ after) → Ending source own ahead after after source.byteSize

/-- An element is open behind the pieces that its ending names, and never behind more of them. -/
theorem Ending.open_iff {source : Text} {own : Tag} {ahead after inner : List Token} {stop : Nat}
    (ending : Ending source own ahead after inner stop) (begins : own.span.start < (spelling ahead).byteSize)
    {front : List Token} (part : front <+: after) : own ∈ openBehind (ahead ++ front) ↔ front <+: inner := by
  have stays {first : List Token} (second : List Token) (later : own ∈ openBehind (ahead ++ (first ++ second))) :
      own ∈ openBehind (ahead ++ first) := by
    rw [← List.append_assoc, openBehind_append] at later
    rcases mem_openFrom later with member | here
    · exact member
    · rw [byteSize_spelling_append] at here
      omega
  have closes {rest : List Token} {inside outer : List Tag} {name gap : Text} (last : List Tag)
      (split : after = inner ++ .endTag name gap :: rest)
      (known : openBehind (ahead ++ inner) = inside ++ own :: outer) (inOuter : last ⊆ outer)
      (left : (Token.endTag name gap).leavesOpen (spelling (ahead ++ inner)).byteSize (inside ++ own :: outer) = last) :
      own ∈ openBehind (ahead ++ front) ↔ front <+: inner := by
    have around : own ∉ outer := fun member => by
      have ordered := (openBehind_before (ahead ++ inner)).1
      rw [known] at ordered
      exact Nat.lt_irrefl _ ((List.pairwise_cons.mp (List.pairwise_append.mp ordered).2.1).1 own member)
    have gone : own ∉ openBehind (ahead ++ (inner ++ [.endTag name gap])) := by
      rw [← List.append_assoc, openBehind_append, known, openFrom, openFrom, left]
      exact fun member => around (inOuter member)
    constructor
    · intro still
      have closing : inner ++ [.endTag name gap] <+: after :=
        ⟨rest, by rw [split, List.append_assoc, List.singleton_append]⟩
      rcases List.prefix_or_prefix_of_prefix part closing with before | ⟨more, rfl⟩
      · rcases List.prefix_concat_iff.mp before with rfl | before
        · exact absurd still gone
        · exact before
      · exact absurd (stays more still) gone
    · rintro ⟨second, rfl⟩
      exact stays second (by rw [known]; simp)
  cases ending with
  | @named _ rest inside outer name gap split known others same =>
    exact closes outer split known (List.Subset.refl outer) (Token.leavesOpen_own gap others same)
  | @around _ rest inside outer name gap split known others found =>
    rcases Token.finds outer name with none | ⟨inside', own', outer', rfl, others', same⟩
    · obtain ⟨other, member, same⟩ := found
      exact absurd same (none other member)
    · refine closes outer' split known (fun tag member => by simp [member]) ?_
      have all : ∀ other ∈ inside ++ own :: inside', ¬ SameName other.name name := by
        intro other member
        rw [← List.singleton_append, ← List.append_assoc] at member
        exact (List.mem_append.mp member).elim (others other) (others' other)
      rw [← List.cons_append, ← List.append_assoc]
      exact Token.leavesOpen_own gap all same
  | atEnd still =>
    refine ⟨fun _ => part, ?_⟩
    rintro ⟨second, rfl⟩
    exact stays second still

theorem openBehind_startTag {before : List Token} {tag : WrittenTag} (open_tag : tag.isWhole = false) :
    openBehind (before ++ [.startTag tag]) = tag.located (spelling before).byteSize :: openBehind before := by
  rw [openBehind_append, openFrom, Token.leavesOpen_start open_tag]
  rfl

/-- What becomes of a piece with a start tag, when `before` are the pieces in front of it and `after` those
behind: the element, where it ends and its children. -/
inductive Closed (source : Text) (before : List Token) : Token → List Token → Node → Prop
  | whole {tag : WrittenTag} {after : List Token} :
      tag.isWhole = true → Closed source before (.startTag tag) after
        (.element (tag.located (spelling before).byteSize) (spelling (before ++ [.startTag tag])).byteSize [])
  | raw {tag : WrittenTag} {content : Text} {after : List Token} :
      tag.opensRawText = true → Closed source before (.rawElement tag content) after
        (.element (tag.located (spelling before).byteSize)
          (spelling (before ++ [.rawElement tag content])).byteSize [])
  | ended {tag : WrittenTag} {after inner : List Token} {stop : Nat} {children : List Node} :
      tag.isWhole = false → tag.opensRawText = false →
      Ending source (tag.located (spelling before).byteSize) (before ++ [.startTag tag]) after inner stop →
      (∀ front, front <+: after → (tag.located (spelling before).byteSize ∈
        openBehind (before ++ [.startTag tag] ++ front) ↔ front <+: inner)) →
      Closed source before (.startTag tag) after
        (.element (tag.located (spelling before).byteSize) stop children)

theorem Closed.of_ending {source : Text} {before after inner : List Token} {tag : WrittenTag} {stop : Nat}
    (open_tag : tag.isWhole = false) (legible : (Token.startTag tag).Legible)
    (ending : Ending source (tag.located (spelling before).byteSize) (before ++ [.startTag tag]) after inner stop)
    (children : List Node) :
    Closed source before (.startTag tag) after
      (.element (tag.located (spelling before).byteSize) stop children) := by
  refine .ended open_tag legible.2 ending fun front part => ending.open_iff ?_ part
  rw [byteSize_spelling_append, byteSize_spelling_singleton]
  exact Nat.lt_add_of_pos_right (Token.byteSize_startTag_pos tag)

/-- What follows pieces that leave elements of the names `left` open: nothing, or an end tag that closes one of
the elements around them. -/
def ClosedFrom (outer left : List Text) (rest : List Token) : Prop :=
  left = [] ∨ rest = [] ∨ ∃ name gap more, rest = .endTag name gap :: more ∧
    (∃ other ∈ outer, SameName other name) ∧ ∀ other ∈ left, ¬ SameName other name

/-- Pieces among those of a document, from byte `start` on, inside open elements of the names `outer`. -/
structure Stretch (all ahead pieces rest : List Token) (outer : List Text) (start : Nat) : Prop where
  split : all = ahead ++ pieces ++ rest
  place : start = (spelling ahead).byteSize
  names : (openBehind ahead).map Tag.name = outer

section

variable {source : Text} {all ahead pieces rest : List Token} {outer outer' left : List Text} {start : Nat}

theorem Stretch.behind (first : List Token) (stretch : Stretch all ahead (first ++ pieces) rest outer start)
    (names : (openFrom start (openBehind ahead) first).map Tag.name = outer') :
    Stretch all (ahead ++ first) pieces rest outer' (start + (spelling first).byteSize) := by
  refine ⟨?_, ?_, ?_⟩
  · rw [stretch.split]
    simp only [List.append_assoc]
  · rw [byteSize_spelling_append, stretch.place]
  · rwa [openBehind_append, ← stretch.place]

theorem Stretch.front {first : List Token} (stretch : Stretch all ahead (first ++ pieces) rest outer start) :
    Stretch all ahead first (pieces ++ rest) outer start := by
  refine ⟨?_, stretch.place, stretch.names⟩
  rw [stretch.split]
  simp only [List.append_assoc]

/-- Behind a piece that opens and closes nothing. -/
theorem Stretch.pass {token : Token} (stretch : Stretch all ahead (token :: pieces) rest outer start)
    (passed : token.leavesOpen start (openBehind ahead) = openBehind ahead) :
    Stretch all (ahead ++ [token]) pieces rest outer (start + token.text.byteSize) := by
  have names : (openFrom start (openBehind ahead) [token]).map Tag.name = outer := by
    rw [openFrom, openFrom, passed, stretch.names]
  have next := Stretch.behind [token] stretch names
  rwa [byteSize_spelling_singleton] at next

/-- Behind a start tag that opens an element. -/
theorem Stretch.enter {tag : WrittenTag} (stretch : Stretch all ahead (.startTag tag :: pieces) rest outer start)
    (open_tag : tag.isWhole = false) :
    Stretch all (ahead ++ [.startTag tag]) pieces rest (tag.name :: outer) (start + tag.text.byteSize) := by
  have names : (openFrom start (openBehind ahead) [.startTag tag]).map Tag.name = tag.name :: outer := by
    rw [stretch.place, ← openBehind_append, openBehind_startTag open_tag, List.map_cons, stretch.names]
    rfl
  have next := Stretch.behind [.startTag tag] stretch names
  rwa [byteSize_spelling_singleton] at next

theorem Stretch.opens {nodes : List Node} (stretch : Stretch all ahead pieces rest outer start)
    (formed : Formed outer start pieces nodes left) :
    ∃ inside, openBehind (ahead ++ pieces) = inside ++ openBehind ahead ∧ inside.map Tag.name = left := by
  rw [openBehind_append, ← stretch.place]
  exact formed.opens stretch.names

/-- What follows pieces with an open element closes what they leave open inside of it, or the element itself. -/
theorem ClosedFrom.inside {name : Text} (follows : ClosedFrom outer (left ++ [name]) rest) :
    ClosedFrom (name :: outer) left rest := by
  rcases follows with none | none | ⟨closing, gap, more, eq, ⟨other, among, same⟩, others⟩
  · exact absurd none (by simp)
  · exact .inr (.inl none)
  · exact .inr (.inr ⟨closing, gap, more, eq, ⟨other, List.mem_cons_of_mem _ among, same⟩,
      fun other member => others other (List.mem_append_left _ member)⟩)

section

variable {written : WrittenTag} {inner tail : List Token} {children : List Node} {inside : List Text}

/-- An element with an end tag of its own ends behind that. -/
theorem Stretch.closed_named {name gap : Text}
    (stretch : Stretch all ahead (.startTag written :: inner ++ .endTag name gap :: tail) rest outer start)
    (open_tag : written.isWhole = false) (legible : (Token.startTag written).Legible)
    (formed : Formed (written.name :: outer) (start + written.text.byteSize) inner children inside)
    (others : ∀ other ∈ inside, ¬ SameName other name) (same : SameName written.name name) :
    ∃ before first after, all = before ++ first :: after ∧ Closed source before first after
      (.element (written.located start)
        (start + (spelling (.startTag written :: inner ++ [.endTag name gap])).byteSize) children) := by
  obtain ⟨within, known, rfl⟩ := (stretch.enter open_tag).front.opens formed
  rw [openBehind_startTag open_tag] at known
  obtain rfl := stretch.place
  refine ⟨ahead, .startTag written, inner ++ .endTag name gap :: (tail ++ rest), by rw [stretch.split]; simp, ?_⟩
  have stop : ahead ++ (.startTag written :: inner ++ [.endTag name gap]) =
      ahead ++ [.startTag written] ++ inner ++ [.endTag name gap] := by simp
  rw [← byteSize_spelling_append, stop]
  exact .of_ending open_tag legible (.named rfl known
    (fun other member => others other.name (List.mem_map_of_mem member)) same) children

/-- An element without an end tag of its own ends where one around it is closed, or with the source. -/
theorem Stretch.closed_around (size : source.byteSize = (spelling all).byteSize)
    (stretch : Stretch all ahead (.startTag written :: inner) rest outer start) (open_tag : written.isWhole = false)
    (legible : (Token.startTag written).Legible)
    (formed : Formed (written.name :: outer) (start + written.text.byteSize) inner children inside)
    (follows : ClosedFrom outer (inside ++ [written.name]) rest) :
    ∃ before first after, all = before ++ first :: after ∧ Closed source before first after
      (.element (written.located start) (start + (spelling (.startTag written :: inner)).byteSize) children) := by
  obtain ⟨within, known, rfl⟩ := (stretch.enter open_tag).opens formed
  rw [openBehind_startTag open_tag] at known
  obtain rfl := stretch.place
  refine ⟨ahead, .startTag written, inner ++ rest, by rw [stretch.split]; simp, ?_⟩
  rw [← byteSize_spelling_append]
  rcases follows with none | rfl | ⟨name, gap, more, rfl, ⟨_, among, same⟩, others⟩
  · exact absurd none (by simp)
  · have last : (spelling (ahead ++ .startTag written :: inner)).byteSize = source.byteSize := by
      rw [size, stretch.split, List.append_nil]
    rw [List.append_nil, last]
    exact .of_ending open_tag legible (.atEnd (by rw [known]; simp)) children
  · have stop : ahead ++ .startTag written :: inner = ahead ++ [.startTag written] ++ inner := by simp
    rw [stop]
    refine .of_ending open_tag legible (.around rfl known (fun other member => others other.name ?_) ?_) children
    · rw [show [written.name] = [written.located (spelling ahead).byteSize].map Tag.name from rfl, ← List.map_append]
      exact List.mem_map_of_mem member
    · rw [← stretch.names] at among
      obtain ⟨other, member, rfl⟩ := List.mem_map.mp among
      exact ⟨other, member, same⟩

end

/-- Each element that pieces form ends as it has to, given what is in front of them and what follows. -/
theorem Formed.closed_elements {nodes : List Node} (formed : Formed outer start pieces nodes left)
    (size : source.byteSize = (spelling all).byteSize) (legible : ∀ token ∈ all, token.Legible)
    (stretch : Stretch all ahead pieces rest outer start)
    (follows : ClosedFrom outer left rest) {tag : Tag} {stop : Nat} {below : List Node}
    (member : .element tag stop below ∈ preorderInRow nodes) :
    ∃ before first after, all = before ++ first :: after ∧
      Closed source before first after (.element tag stop below) := by
  induction formed generalizing ahead rest with
  | done => exact absurd member List.not_mem_nil
  | plain _ ih => exact ih (stretch.pass rfl) follows member
  | @stray outer start name gap tail nodes left others _ ih =>
    have passed : (Token.endTag name gap).leavesOpen start (openBehind ahead) = openBehind ahead :=
      Token.leavesOpen_stray gap fun tag member =>
        others tag.name (stretch.names ▸ List.mem_map_of_mem member)
    exact ih (stretch.pass passed) follows member
  | comment _ ih =>
    rcases List.mem_cons.mp member with eq | member
    · exact Node.noConfusion eq
    · exact ih (stretch.pass rfl) follows member
  | @whole outer start written tail nodes left whole _ ih =>
    rcases List.mem_cons.mp member with eq | member
    · obtain rfl := stretch.place
      refine ⟨ahead, .startTag written, tail ++ rest, by rw [stretch.split]; simp, ?_⟩
      rw [eq, ← show (Token.startTag written).text = written.text from rfl, ← byteSize_spelling_singleton,
        ← byteSize_spelling_append]
      exact .whole whole
    · exact ih (stretch.pass (Token.leavesOpen_whole whole)) follows member
  | @raw outer start written content tail nodes left _ ih =>
    rcases List.mem_cons.mp member with eq | member
    · obtain rfl := stretch.place
      refine ⟨ahead, .rawElement written content, tail ++ rest, by rw [stretch.split]; simp, ?_⟩
      rw [eq, ← byteSize_spelling_singleton, ← byteSize_spelling_append]
      exact .raw (legible (.rawElement written content) (by rw [stretch.split]; simp)).2
    · exact ih (stretch.pass rfl) follows member
  | @closed outer start written inner children inside name gap tail nodes left open_tag formed others same _
      ihInner ihRest =>
    have element : .startTag written :: inner ++ .endTag name gap :: tail =
        (.startTag written :: (inner ++ [.endTag name gap])) ++ tail := by simp
    have own := legible (.startTag written) (by rw [stretch.split]; simp)
    simp only [preorderInRow, Node.preorder, List.cons_append, List.mem_cons, List.mem_append] at member
    rcases member with eq | member | member
    · rw [eq]
      exact stretch.closed_named open_tag own formed others same
    · exact ihInner (stretch.enter open_tag).front (.inr (.inr ⟨name, gap, tail ++ rest, rfl,
        ⟨written.name, List.mem_cons_self, same⟩, others⟩)) member
    · rw [element] at stretch
      obtain ⟨inside, atEnd, none⟩ :=
        (ElementFormed.closed open_tag formed others same).formed.opens stretch.names
      refine ihRest (stretch.behind _ ?_) follows member
      rw [atEnd, List.map_append, none, stretch.names, List.nil_append]
  | @unclosed outer start written inner children inside open_tag formed ih =>
    have own := legible (.startTag written) (by rw [stretch.split]; simp)
    simp only [preorderInRow, Node.preorder, List.append_nil, List.mem_cons] at member
    rcases member with eq | member
    · rw [eq]
      exact stretch.closed_around size open_tag own formed follows
    · exact ih (stretch.enter open_tag) follows.inside member

end

/-- Whatever a document looks like, its nodes in preorder are the comments and start tags among its pieces, each of
them once and in order, and each element ends as its start tag asks for. End tags that find no open element of
their name change nothing. -/
theorem nodes_account_for_pieces (source : Text) :
    let pieces := Scan.tokens source
    (preorderInRow source.nodes).map Node.opening = openings 0 pieces ∧
      ((openings 0 pieces).Pairwise fun a b => a.start < b.start) ∧
      (∀ tag stop children, .element tag stop children ∈ preorderInRow source.nodes →
        ∃ before first after, pieces = before ++ first :: after ∧
          Closed source before first after (.element tag stop children)) ∧
      (∀ before after, pieces = before ++ after → (Growth.run ⟨[], []⟩ 0 before).tags = openBehind before) ∧
      ∀ before name gap after, pieces = before ++ .endTag name gap :: after →
        (∀ other ∈ openBehind before, ¬ SameName other.name name) →
        (Growth.run ⟨[], []⟩ 0 before).take (spelling before).byteSize (.endTag name gap) =
          Growth.run ⟨[], []⟩ 0 before := by
  intro pieces
  obtain ⟨left, formed⟩ := formed_nodes source
  refine ⟨formed.preorder, (openings_ordered (Scan.tokens_text_ne_nil source)).2, fun tag stop children member => ?_,
    fun before after _ => Growth.tags_run .., fun before name gap after _ others => ?_⟩
  · have size : source.byteSize = (spelling pieces).byteSize := by rw [spelling, Scan.tokens_spells]
    have stretch : Stretch pieces [] pieces [] [] 0 := ⟨(List.append_nil pieces).symm, rfl, rfl⟩
    exact formed.closed_elements size (Scan.tokens_legible source) stretch (.inr (.inl rfl)) member
  · refine Growth.close_stray ?_
    rw [← Growth.map_name_tags, Growth.tags_run]
    exact List.forall_mem_map.mpr others

/-- Two items of a list that ends around both of them, an end tag that comes too late, and an element that is
never closed. -/
theorem nodes_account_for_pieces_of_unclosed_items :
    let source : Text := "<ul><li>é<LI><br></ul></li><i>"
    let late : List Token := [.startTag ⟨"ul", [], "", false⟩, .startTag ⟨"li", [], "", false⟩, .plain "é",
      .startTag ⟨"LI", [], "", false⟩, .startTag ⟨"br", [], "", false⟩, .endTag "ul" ""]
    let item : Node := .element ⟨"li", [], ⟨4, 8⟩⟩ 18
      [.element ⟨"LI", [], ⟨10, 14⟩⟩ 18 [.element ⟨"br", [], ⟨14, 18⟩⟩ 18 []]]
    item ∈ preorderInRow source.nodes ∧
      (∃ before first after, Scan.tokens source = before ++ first :: after ∧
        Closed source before first after item) ∧
      Scan.tokens source = late ++ [.endTag "li" "", .startTag ⟨"i", [], "", false⟩] ∧ openBehind late = [] ∧
      (Growth.run ⟨[], []⟩ 0 late).take (spelling late).byteSize (.endTag "li" "") =
        Growth.run ⟨[], []⟩ 0 late := by
  intro source late item
  have member : item ∈ preorderInRow source.nodes := by decide +kernel
  have pieces : Scan.tokens source = late ++ [.endTag "li" "", .startTag ⟨"i", [], "", false⟩] := by decide +kernel
  have none : openBehind late = [] := by decide +kernel
  obtain ⟨_, _, closed, _, stray⟩ := nodes_account_for_pieces source
  refine ⟨member, closed _ _ _ member, pieces, none, stray late "li" "" _ pieces ?_⟩
  rw [none]
  exact fun _ open_tag => absurd open_tag List.not_mem_nil

end MarkupTemplates
