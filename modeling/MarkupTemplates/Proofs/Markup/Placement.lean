import MarkupTemplates.Proofs.Markup.Formation
import MarkupTemplates.Proofs.Markup.Legible
import MarkupTemplates.Proofs.Text.Bytes

namespace MarkupTemplates

/-- Attributes in a row between two positions, each with room for a blank of one byte before it. -/
inductive AttributesPlaced (source : Text) (hi : Nat) : Nat → List Attribute → Prop
  | nil {lo : Nat} : lo ≤ hi → AttributesPlaced source hi lo []
  | cons {lo : Nat} {a : Attribute} {rest : List Attribute} :
      lo < a.span.start → source.IsBoundary (a.span.start - 1) → a.span.start ≤ a.span.stop →
      source.IsBoundary a.span.stop → AttributesPlaced source hi a.span.stop rest →
      AttributesPlaced source hi lo (a :: rest)

/-- Nodes in a row between two positions. Attributes stand inside their tags and children between the
tag and the end of their element. -/
inductive Placed (source : Text) : Nat → Nat → List Node → Prop
  | nil {lo hi : Nat} : lo ≤ hi → Placed source lo hi []
  | comment {lo hi : Nat} {span : Span} {rest : List Node} :
      lo ≤ span.start → source.IsBoundary span.start → span.start ≤ span.stop →
      source.IsBoundary span.stop → Placed source span.stop hi rest →
      Placed source lo hi (.comment span :: rest)
  | element {lo hi stop : Nat} {tag : Tag} {children rest : List Node} :
      lo ≤ tag.span.start → source.IsBoundary tag.span.start →
      AttributesPlaced source tag.span.stop tag.span.start tag.attributes →
      source.IsBoundary tag.span.stop → Placed source tag.span.stop stop children →
      source.IsBoundary stop → Placed source stop hi rest →
      Placed source lo hi (.element tag stop children :: rest)

theorem AttributesPlaced.le {source : Text} {lo hi : Nat} {attributes : List Attribute}
    (placed : AttributesPlaced source hi lo attributes) : lo ≤ hi := by
  induction placed with
  | nil less => exact less
  | cons lower _ forward _ _ ih => omega

theorem AttributesPlaced.weaken {source : Text} {lo lower hi : Nat} {attributes : List Attribute}
    (placed : AttributesPlaced source hi lo attributes) (less : lower ≤ lo) :
    AttributesPlaced source hi lower attributes := by
  cases placed with
  | nil le => exact .nil (Nat.le_trans less le)
  | cons lower atStart forward atStop rest => exact .cons (by omega) atStart forward atStop rest

theorem Placed.le {source : Text} {lo hi : Nat} {nodes : List Node} (placed : Placed source lo hi nodes) :
    lo ≤ hi := by
  induction placed with
  | nil less => exact less
  | comment lower _ forward _ _ ih => omega
  | element lower _ attributes _ _ _ _ ihChildren ihRest =>
    have := attributes.le
    omega

theorem Placed.weaken {source : Text} {lo lower hi : Nat} {nodes : List Node}
    (placed : Placed source lo hi nodes) (less : lower ≤ lo) : Placed source lower hi nodes := by
  cases placed with
  | nil le => exact .nil (Nat.le_trans less le)
  | comment above atStart forward atStop rest => exact .comment (by omega) atStart forward atStop rest
  | element above atStart attributes atTag children atStop rest =>
    exact .element (by omega) atStart attributes atTag children atStop rest

theorem Placed.widen {source : Text} {lo hi higher : Nat} {nodes : List Node}
    (placed : Placed source lo hi nodes) (less : hi ≤ higher) : Placed source lo higher nodes := by
  induction placed with
  | nil le => exact .nil (Nat.le_trans le less)
  | comment above atStart forward atStop _ ih => exact .comment above atStart forward atStop (ih less)
  | element above atStart attributes atTag children atStop _ _ ih =>
    exact .element above atStart attributes atTag children atStop (ih less)

/-- Gaps of a tag hold characters of one byte each. -/
theorem byteSize_gap {gap : Text} (blank : ∀ c ∈ gap, isGap c = true) : gap.byteSize = gap.length := by
  induction gap with
  | nil => rfl
  | cons c gap ih =>
    have one : c.utf8Size = 1 := by
      have := blank c List.mem_cons_self
      simp only [isGap, Bool.or_eq_true, decide_eq_true_eq] at this
      rcases this with ((rfl | rfl) | rfl) | rfl <;> rfl
    rw [Text.byteSize_cons, one, ih fun d member => blank d (List.mem_cons_of_mem _ member),
      List.length_cons, Nat.add_comm]

/-- The blanks in front of an attribute end with one that takes up a single byte. -/
theorem WrittenAttribute.Legible.last_blank {a : WrittenAttribute} (legible : a.Legible) :
    ∃ (blanks : Text) (blank : Char), a.gap = blanks ++ [blank] ∧ blank.utf8Size = 1 ∧
      ∀ c ∈ blanks, isGap c = true := by
  obtain ⟨blanks, blank, gap⟩ : ∃ (blanks : Text) (blank : Char), a.gap = blanks ++ [blank] :=
    ⟨_, _, (List.dropLast_concat_getLast legible.some_gap).symm⟩
  have one : Text.byteSize [blank] = 1 :=
    byteSize_gap fun c member => legible.gap c (by rw [gap]; exact List.mem_append_right _ member)
  exact ⟨blanks, blank, gap, one, fun c member => legible.gap c (by rw [gap]; exact List.mem_append_left _ member)⟩

/-- The source has the text at byte `start`. -/
def Stands (source : Text) (start : Nat) (t : Text) : Prop :=
  ∃ before after, source = before ++ t ++ after ∧ before.byteSize = start

theorem Stands.left {source s t : Text} {start : Nat} (stands : Stands source start (s ++ t)) :
    Stands source start s := by
  obtain ⟨before, after, eq, size⟩ := stands
  exact ⟨before, t ++ after, by rw [eq]; simp only [List.append_assoc], size⟩

theorem Stands.right {source s t : Text} {start : Nat} (stands : Stands source start (s ++ t)) :
    Stands source (start + s.byteSize) t := by
  obtain ⟨before, after, eq, size⟩ := stands
  exact ⟨before ++ s, after, by rw [eq]; simp only [List.append_assoc],
    by rw [Text.byteSize_append, size]⟩

theorem Stands.atStart {source t : Text} {start : Nat} (stands : Stands source start t) :
    source.IsBoundary start := by
  obtain ⟨before, after, eq, size⟩ := stands
  exact ⟨before, t ++ after, by rw [eq, List.append_assoc], size⟩

theorem Stands.atStop {source t : Text} {start : Nat} (stands : Stands source start t) :
    source.IsBoundary (start + t.byteSize) :=
  (Stands.right (t := []) (by rwa [List.append_nil])).atStart

theorem WrittenAttribute.placed {source : Text} {start : Nat} (hi : Nat) {list : List WrittenAttribute}
    (legible : ∀ a ∈ list, a.Legible) (stands : Stands source start (list.flatMap WrittenAttribute.text))
    (within : start + Text.byteSize (list.flatMap WrittenAttribute.text) ≤ hi) :
    AttributesPlaced source hi start (locatedInRow start list) := by
  induction list generalizing start with
  | nil => exact .nil (by omega)
  | cons a list ih =>
    rw [List.flatMap_cons] at stands within
    rw [Text.byteSize_append] at within
    have here := legible a List.mem_cons_self
    obtain ⟨blanks, blank, gap, single, _⟩ := here.last_blank
    have one : Text.byteSize [blank] = 1 := single
    obtain ⟨written, spelled⟩ : ∃ written, a.text = blanks ++ ([blank] ++ written) :=
      ⟨_, by rw [WrittenAttribute.text, gap, List.append_assoc, List.append_assoc]⟩
    have size : a.text.byteSize = blanks.byteSize + 1 + Text.byteSize written := by
      rw [spelled, Text.byteSize_append, Text.byteSize_append, one, Nat.add_assoc]
    have size' : Text.byteSize a.gap = blanks.byteSize + 1 := by rw [gap, Text.byteSize_append, one]
    have inFront : source.IsBoundary (start + blanks.byteSize) := by
      have own := stands.left
      rw [spelled] at own
      exact own.left.atStop
    rw [locatedInRow]
    refine .cons ?_ ?_ ?_ stands.left.atStop (ih (fun b member => legible b (List.mem_cons_of_mem _ member))
      stands.right (by simp only [located]; omega))
    · simp only [located]
      omega
    · have before : (a.located start).span.start - 1 = start + blanks.byteSize := by
        simp only [located]
        omega
      rw [before]
      exact inFront
    · simp only [located]
      omega

theorem WrittenTag.placed {source : Text} {start : Nat} {tag : WrittenTag} (legible : tag.Legible)
    (stands : Stands source start tag.text) :
    AttributesPlaced source (tag.located start).span.stop (tag.located start).span.start
      (tag.located start).attributes := by
  obtain ⟨last, spelled⟩ : ∃ last, tag.text =
      ['<'] ++ (tag.name ++ (tag.attributes.flatMap WrittenAttribute.text ++ last)) :=
    ⟨tag.gap ++ ((if tag.slash then ['/'] else []) ++ ['>']), by
      simp only [WrittenTag.text, List.append_assoc, List.cons_append, List.nil_append]⟩
  have size : tag.text.byteSize = 1 + (Text.byteSize tag.name +
      (Text.byteSize (tag.attributes.flatMap WrittenAttribute.text) + Text.byteSize last)) := by
    rw [spelled, Text.byteSize_append, Text.byteSize_append, Text.byteSize_append]
    rfl
  rw [spelled] at stands
  have placed := WrittenAttribute.placed (start + tag.text.byteSize) legible.attributes
    stands.right.right.left (by
      rw [size]
      simp only [Text.byteSize_cons, Text.byteSize_nil, show '<'.utf8Size = 1 from rfl]
      omega)
  exact placed.weaken (by simp only [located, Text.byteSize_cons, Text.byteSize_nil]; omega)

/-- Nodes stand where their pieces stand. -/
theorem Formed.placed {source : Text} {outer : List Text} {start : Nat} {tokens : List Token}
    {nodes : List Node} {left : List Text} (formed : Formed outer start tokens nodes left)
    (legible : ∀ token ∈ tokens, token.Legible) (stands : Stands source start (spelling tokens)) :
    Placed source start (start + (spelling tokens).byteSize) nodes := by
  induction formed with
  | done => exact .nil (Nat.le_add_right ..)
  | @plain outer start text rest nodes left _ ih =>
    have others := ih (fun token member => legible token (List.mem_cons_of_mem _ member)) stands.right
    rw [byteSize_spelling_cons, ← Nat.add_assoc]
    exact others.weaken (Nat.le_add_right ..)
  | @stray outer start name gap rest nodes left _ _ ih =>
    have others := ih (fun token member => legible token (List.mem_cons_of_mem _ member)) stands.right
    rw [byteSize_spelling_cons, ← Nat.add_assoc]
    exact others.weaken (Nat.le_add_right ..)
  | @comment outer start text rest nodes left _ ih =>
    have others := ih (fun token member => legible token (List.mem_cons_of_mem _ member)) stands.right
    rw [byteSize_spelling_cons, ← Nat.add_assoc]
    exact .comment (Nat.le_refl _) stands.atStart (Nat.le_add_right ..) stands.left.atStop others
  | @whole outer start tag rest nodes left _ _ ih =>
    have others := ih (fun token member => legible token (List.mem_cons_of_mem _ member)) stands.right
    have own := (legible (.startTag tag) List.mem_cons_self).1
    rw [byteSize_spelling_cons, ← Nat.add_assoc]
    exact .element (Nat.le_refl _) stands.atStart (tag.placed own stands.left) stands.left.atStop
      (.nil (Nat.le_refl _)) stands.left.atStop others
  | @raw outer start tag content rest nodes left _ ih =>
    have others := ih (fun token member => legible token (List.mem_cons_of_mem _ member)) stands.right
    have own := (legible (.rawElement tag content) List.mem_cons_self).1
    have opening : Stands source start tag.text := stands.left.left
    rw [byteSize_spelling_cons, ← Nat.add_assoc]
    refine .element (Nat.le_refl _) stands.atStart (tag.placed own opening) opening.atStop
      (.nil ?_) stands.left.atStop others
    simp only [WrittenTag.located, Token.text, Text.byteSize_append]
    omega
  | @closed outer start tag inner children inside name gap rest nodes left _ _ _ _ _ ihInner ihRest =>
    have own := (legible (.startTag tag) List.mem_cons_self).1
    rw [List.append_cons, spelling_append] at stands
    have opening : Stands source start (spelling (.startTag tag :: inner)) := by
      have first := stands.left
      rw [spelling_append] at first
      exact first.left
    have below := ihInner (fun token member => legible token
      (List.mem_cons_of_mem _ (List.mem_append_left _ member))) opening.right
    have others := ihRest (fun token member => legible token
      (List.mem_append_right _ (List.mem_cons_of_mem _ member))) stands.right
    rw [List.append_cons, byteSize_spelling_append, ← Nat.add_assoc]
    refine .element (Nat.le_refl _) stands.atStart (tag.placed own opening.left) opening.left.atStop
      (below.widen ?_) stands.left.atStop others
    rw [byteSize_spelling_append, byteSize_spelling_cons, Token.text]
    omega
  | @unclosed outer start tag inner children inside _ _ ih =>
    have own := (legible (.startTag tag) List.mem_cons_self).1
    have below := ih (fun token member => legible token (List.mem_cons_of_mem _ member)) stands.right
    refine .element (Nat.le_refl _) stands.atStart (tag.placed own stands.left) stands.left.atStop
      ?_ stands.atStop (.nil (Nat.le_refl _))
    rw [byteSize_spelling_cons, ← Nat.add_assoc]
    exact below

/-- The nodes of a source stand between its ends, one after the other and one inside the other. -/
theorem placed_nodes (source : Text) : Placed source 0 source.byteSize source.nodes := by
  obtain ⟨left, formed⟩ := formed_nodes source
  have whole : spelling (Scan.tokens source) = source := Scan.tokens_spells source
  have placed := formed.placed (Scan.tokens_legible source)
    ⟨[], [], by rw [whole, List.nil_append, List.append_nil], rfl⟩
  rwa [whole, Nat.zero_add] at placed

end MarkupTemplates
