import MarkupTemplates.Proofs.Edit.Spelling

namespace MarkupTemplates

namespace Edits

/-- Spans in a row, at or after `lo`, that do not overlap. -/
inductive Apart (source : Text) : Nat → List Span → Prop
  | nil {lo : Nat} : Apart source lo []
  | cons {lo : Nat} {span : Span} {rest : List Span} :
      lo ≤ span.start → span.start ≤ span.stop → source.IsBoundary span.start →
      source.IsBoundary span.stop → Apart source span.stop rest → Apart source lo (span :: rest)

/-- Positions within the source, as far as they are within it, do not cut characters in two. -/
structure OnBoundaries (edits : Edits) (source : Text) : Prop where
  starts : ∀ span ∈ edits.removals, span.start ≤ source.byteSize → source.IsBoundary span.start
  stops : ∀ span ∈ edits.removals, span.stop ≤ source.byteSize → source.IsBoundary span.stop
  positions : ∀ insertion ∈ edits.insertions,
    insertion.position ≤ source.byteSize → source.IsBoundary insertion.position

theorem Apart.above {source : Text} {lo : Nat} {spans : List Span} (apart : Apart source lo spans)
    {span : Span} (member : span ∈ spans) : lo ≤ span.start := by
  induction apart with
  | nil => exact absurd member List.not_mem_nil
  | cons lower proper _ _ _ ih =>
    rcases List.mem_cons.mp member with rfl | later
    · exact lower
    · have := ih later
      omega

theorem mergedAfter_apart {source : Text} {lo : Nat} {last : Span} {spans : List Span}
    (above : lo ≤ last.start) (proper : last.start ≤ last.stop)
    (atStart : source.IsBoundary last.start) (atStop : source.IsBoundary last.stop)
    (others : ∀ span ∈ spans, span.start ≤ span.stop ∧ source.IsBoundary span.start ∧
      source.IsBoundary span.stop) : Apart source lo (mergedAfter last spans) := by
  induction spans generalizing lo last with
  | nil => exact .cons above proper atStart atStop .nil
  | cons span rest ih =>
    obtain ⟨order, start, stop⟩ := others span List.mem_cons_self
    have rest' := fun s member => others s (List.mem_cons_of_mem _ member)
    rw [mergedAfter]
    split
    · refine ih above (by simp only; omega) atStart ?_ rest'
      rcases Nat.le_total last.stop span.stop with less | less
      · simpa only [Nat.max_eq_right less] using stop
      · simpa only [Nat.max_eq_left less] using atStop
    · next far => exact .cons above proper atStart atStop (ih (by omega) order start stop rest')

theorem mem_mergedAfter {last : Span} {spans : List Span} {n : Nat}
    (proper : last.start ≤ last.stop) (sorted : (last :: spans).Pairwise fun a b => a.start ≤ b.start)
    (others : ∀ span ∈ spans, span.start ≤ span.stop) :
    (∃ span ∈ mergedAfter last spans, span.start ≤ n ∧ n < span.stop) ↔
      ∃ span ∈ last :: spans, span.start ≤ n ∧ n < span.stop := by
  induction spans generalizing last with
  | nil => rfl
  | cons span rest ih =>
    have order := others span List.mem_cons_self
    have rest' := fun s member => others s (List.mem_cons_of_mem _ member)
    obtain ⟨first, sorted⟩ := List.pairwise_cons.mp sorted
    have less := first span List.mem_cons_self
    rw [mergedAfter]
    split
    · have sorted' : (⟨last.start, max last.stop span.stop⟩ :: rest : List Span).Pairwise
          fun a b => a.start ≤ b.start :=
        List.pairwise_cons.mpr ⟨fun s member => first s (List.mem_cons_of_mem _ member),
          (List.pairwise_cons.mp sorted).2⟩
      rw [ih (by simp only; omega) sorted' rest']
      simp only [List.mem_cons, exists_eq_or_imp]
      constructor
      · rintro (⟨lower, upper⟩ | found)
        · by_cases before : n < last.stop
          · exact Or.inl ⟨lower, before⟩
          · exact Or.inr (Or.inl ⟨by omega, by omega⟩)
        · exact Or.inr (Or.inr found)
      · rintro (⟨lower, upper⟩ | ⟨lower, upper⟩ | found)
        · exact Or.inl ⟨lower, by omega⟩
        · exact Or.inl ⟨by omega, by omega⟩
        · exact Or.inr found
    · simp only [List.mem_cons, exists_eq_or_imp]
      rw [ih order sorted rest']
      simp only [List.mem_cons, exists_eq_or_imp]

theorem mergeSort_sorted {α : Type} (key : α → Nat) (list : List α) :
    (list.mergeSort fun a b => key a ≤ key b).Pairwise fun a b => key a ≤ key b := by
  have sorted : (list.mergeSort fun a b => key a ≤ key b).Pairwise
      fun a b => decide (key a ≤ key b) = true :=
    List.pairwise_mergeSort
      (fun a b c first second => by simp only [decide_eq_true_eq] at *; omega)
      (fun a b => by simp only [Bool.or_eq_true, decide_eq_true_eq]; omega) list
  exact sorted.imp of_decide_eq_true

/-- The removals that remain of a span in a source of the given size. -/
def clamped (size : Nat) (span : Span) : Span := ⟨min span.start size, min span.stop size⟩

/-- What `gaps` merges. -/
def proper (edits : Edits) (size : Nat) : List Span :=
  ((edits.removals.map (clamped size)).filter fun span => span.start < span.stop).mergeSort
    fun a b => a.start ≤ b.start

theorem mem_proper {edits : Edits} {size : Nat} {span : Span} :
    span ∈ edits.proper size ↔ (∃ removal ∈ edits.removals, clamped size removal = span) ∧
      span.start < span.stop := by
  simp only [proper, List.mem_mergeSort, List.mem_filter, List.mem_map, decide_eq_true_eq]

theorem proper_sorted (edits : Edits) (size : Nat) :
    (edits.proper size).Pairwise fun a b => a.start ≤ b.start :=
  mergeSort_sorted Span.start _

theorem gaps_eq (edits : Edits) (size : Nat) : edits.gaps size = merged (edits.proper size) := rfl

theorem proper_boundaries {edits : Edits} {source : Text} (within : edits.OnBoundaries source)
    {span : Span} (member : span ∈ edits.proper source.byteSize) :
    span.start ≤ span.stop ∧ source.IsBoundary span.start ∧ source.IsBoundary span.stop := by
  have clampedBoundary {n : Nat} (boundary : n ≤ source.byteSize → source.IsBoundary n) :
      source.IsBoundary (min n source.byteSize) := by
    rcases Nat.le_total n source.byteSize with less | less
    · rw [Nat.min_eq_left less]
      exact boundary less
    · rw [Nat.min_eq_right less]
      exact source.isBoundary_byteSize
  obtain ⟨⟨removal, asked, rfl⟩, order⟩ := mem_proper.mp member
  exact ⟨Nat.le_of_lt order, clampedBoundary (within.starts removal asked),
    clampedBoundary (within.stops removal asked)⟩

/-- The stretches left out do not overlap. -/
theorem gaps_apart {edits : Edits} {source : Text} (within : edits.OnBoundaries source) :
    Apart source 0 (edits.gaps source.byteSize) := by
  have boundaries := fun span (member : span ∈ edits.proper source.byteSize) =>
    proper_boundaries within member
  rw [gaps_eq]
  cases spans : edits.proper source.byteSize with
  | nil => exact .nil
  | cons first rest =>
    rw [spans] at boundaries
    obtain ⟨order, start, stop⟩ := boundaries first List.mem_cons_self
    exact mergedAfter_apart (Nat.zero_le _) order start stop
      fun span member => boundaries span (List.mem_cons_of_mem _ member)

/-- Every byte that some removal contains is left out, and no other one. -/
theorem removes_gaps {edits : Edits} {size n : Nat} (insertions : List Insertion) (inside : n < size) :
    removes ⟨edits.gaps size, insertions⟩ n = edits.removes n := by
  have covered : (∃ span ∈ edits.gaps size, span.start ≤ n ∧ n < span.stop) ↔
      ∃ span ∈ edits.proper size, span.start ≤ n ∧ n < span.stop := by
    have sorted := edits.proper_sorted size
    have order : ∀ span ∈ edits.proper size, span.start ≤ span.stop :=
      fun span member => Nat.le_of_lt (mem_proper.mp member).2
    rw [gaps_eq]
    cases spans : edits.proper size with
    | nil => rfl
    | cons first rest =>
      rw [spans] at sorted order
      exact mem_mergedAfter (order first List.mem_cons_self) sorted
        fun span member => order span (List.mem_cons_of_mem _ member)
  rw [Bool.eq_iff_iff]
  simp only [removes, List.any_eq_true, Bool.and_eq_true, decide_eq_true_eq, covered]
  constructor
  · rintro ⟨span, member, lower, upper⟩
    obtain ⟨⟨removal, asked, rfl⟩, _⟩ := mem_proper.mp member
    simp only [clamped] at lower upper
    exact ⟨removal, asked, by omega, by omega⟩
  · rintro ⟨removal, asked, lower, upper⟩
    refine ⟨clamped size removal, mem_proper.mpr ⟨⟨removal, asked, rfl⟩, ?_⟩, ?_⟩ <;>
      simp only [clamped] <;> omega

/-- Insertions in order of their positions, on boundaries as far as they are within the source. -/
structure Ordered (source : Text) (insertions : List Insertion) : Prop where
  sorted : insertions.Pairwise fun a b => a.position ≤ b.position
  boundaries : ∀ insertion ∈ insertions,
    insertion.position ≤ source.byteSize → source.IsBoundary insertion.position

theorem Ordered.filter {source : Text} {insertions : List Insertion}
    (ordered : Ordered source insertions) (p : Insertion → Bool) :
    Ordered source (insertions.filter p) :=
  ⟨ordered.sorted.filter p, fun insertion member =>
    ordered.boundaries insertion (List.mem_filter.mp member).1⟩

theorem Ordered.tail {source : Text} {first : Insertion} {rest : List Insertion}
    (ordered : Ordered source (first :: rest)) : Ordered source rest :=
  ⟨(List.pairwise_cons.mp ordered.sorted).2, fun insertion member =>
    ordered.boundaries insertion (List.mem_cons_of_mem _ member)⟩

/-- In order of positions, what is due comes before everything else. -/
theorem takeWhile_due {insertions : List Insertion} (due : Insertion → Bool)
    (earlier : ∀ a b : Insertion, a.position ≤ b.position → due b = true → due a = true)
    (sorted : insertions.Pairwise fun a b => a.position ≤ b.position) :
    insertions.takeWhile due = insertions.filter due ∧
      insertions.dropWhile due = insertions.filter fun insertion => !due insertion := by
  induction insertions with
  | nil => exact ⟨rfl, rfl⟩
  | cons first rest ih =>
    obtain ⟨order, sorted⟩ := List.pairwise_cons.mp sorted
    obtain ⟨taken, dropped⟩ := ih sorted
    cases first_due : due first with
    | true =>
      simp only [List.takeWhile_cons, List.dropWhile_cons, List.filter_cons, first_due, if_true,
        taken, dropped, Bool.not_true, Bool.false_eq_true, if_false, and_self]
    | false =>
      have none : ∀ insertion ∈ rest, due insertion = false := by
        intro insertion member
        rw [← Bool.not_eq_true]
        intro later
        rw [earlier first insertion (order insertion member) later] at first_due
        exact Bool.noConfusion first_due
      have kept : rest.filter due = [] :=
        List.filter_eq_nil_iff.mpr fun insertion member => by simp [none insertion member]
      have all : (rest.filter fun insertion => !due insertion) = rest :=
        List.filter_eq_self.mpr fun insertion member => by simp [none insertion member]
      simp only [List.takeWhile_cons, List.dropWhile_cons, List.filter_cons, first_due,
        Bool.false_eq_true, if_false, Bool.not_false, if_true, kept, all, and_self]

theorem filter_before_append {insertions : List Insertion} (n : Nat)
    (sorted : insertions.Pairwise fun a b => a.position ≤ b.position) :
    insertions.filter (fun insertion => insertion.position < n) ++
      insertions.filter (fun insertion => n ≤ insertion.position) = insertions := by
  obtain ⟨taken, dropped⟩ := takeWhile_due (fun insertion => insertion.position < n)
    (fun a b le less => by simp only [decide_eq_true_eq] at *; omega) sorted
  simp only [← decide_not, Nat.not_lt] at dropped
  rw [← taken, ← dropped, List.takeWhile_append_dropWhile]

theorem filter_filter_of_imp (insertions : List Insertion) {p q : Insertion → Bool}
    (weaker : ∀ insertion, p insertion = true → q insertion = true) :
    (insertions.filter q).filter p = insertions.filter p := by
  rw [List.filter_filter]
  apply List.filter_congr
  intro insertion _
  cases holds : p insertion with
  | true => rw [weaker insertion holds, Bool.and_self]
  | false => rw [Bool.false_and]

/-- What is put in at a position is found among any part of the insertions that holds all at it. -/
theorem inserted_filter {insertions : List Insertion} {removals removals' : List Span} {n : Nat}
    {p : Insertion → Bool}
    (holds : ∀ insertion ∈ insertions, insertion.position = n → p insertion = true) :
    inserted ⟨removals, insertions.filter p⟩ n = inserted ⟨removals', insertions⟩ n := by
  have same : (insertions.filter p).filter (fun insertion => insertion.position = n) =
      insertions.filter fun insertion => insertion.position = n := by
    rw [List.filter_filter]
    apply List.filter_congr
    intro insertion member
    by_cases here : insertion.position = n
    · simp only [here, decide_true, Bool.true_and, holds insertion member here]
    · simp only [here, decide_false, Bool.false_and]
  rw [inserted, inserted, same]

/-- A position on a boundary, as far as it is within the source, is not strictly inside a character. -/
theorem beyond_char_of_within {source before t : Text} {c : Char} {n : Nat} (here : source = before ++ c :: t)
    (boundary : n ≤ source.byteSize → source.IsBoundary n) (above : before.byteSize < n) :
    before.byteSize + c.utf8Size ≤ n := by
  rcases Nat.lt_or_ge source.byteSize n with outside | inside
  · rw [here, Text.byteSize_append, Text.byteSize_cons] at outside
    omega
  · have known := boundary inside
    rw [here] at known
    exact known.beyond_char above

/-- A stretch that is left out leaves the insertions inside it. -/
theorem spelled_removed {source t before after : Text} {removals : List Span}
    {insertions : List Insertion} (ordered : Ordered source insertions)
    (here : source = before ++ t ++ after)
    (within : ∀ insertion ∈ insertions, before.byteSize ≤ insertion.position ∧
      insertion.position ≤ before.byteSize + t.byteSize)
    (removed : ∀ p, before.byteSize ≤ p → p < before.byteSize + t.byteSize →
      removes ⟨removals, insertions⟩ p = true) :
    spelled ⟨removals, insertions⟩ before.byteSize t = insertions.flatMap Insertion.text := by
  induction t generalizing before insertions with
  | nil =>
    rw [spelled, inserted, List.filter_eq_self.mpr]
    intro insertion member
    have := within insertion member
    simp only [Text.byteSize_nil] at this
    simp only [decide_eq_true_eq]
    omega
  | cons c t ih =>
    have positive := c.utf8Size_pos
    have after_c : (before ++ [c]).byteSize = before.byteSize + c.utf8Size := by
      simp only [Text.byteSize_append, Text.byteSize_cons, Text.byteSize_nil, Nat.add_zero]
    simp only [Text.byteSize_cons, ← Nat.add_assoc] at within removed
    have gone := removed before.byteSize (Nat.le_refl _) (by omega)
    have here' : source = before ++ c :: (t ++ after) := by rw [here, List.append_assoc, List.cons_append]
    have rest : spelled ⟨removals, insertions.filter fun insertion => before.byteSize < insertion.position⟩
        (before ++ [c]).byteSize t =
        (insertions.filter fun insertion => before.byteSize < insertion.position).flatMap Insertion.text := ih
      (ordered.filter fun insertion => before.byteSize < insertion.position)
      (by rw [here]; simp only [List.append_assoc, List.cons_append, List.nil_append])
      (by
        intro insertion member
        obtain ⟨member, above⟩ := List.mem_filter.mp member
        have := within insertion member
        have := beyond_char_of_within here' (ordered.boundaries insertion member) (by simpa using above)
        rw [after_c]
        omega)
      (by
        intro p lower upper
        rw [after_c] at lower upper
        exact removed p (by omega) (by omega))
    rw [after_c] at rest
    have same : spelled ⟨removals, insertions⟩ (before.byteSize + c.utf8Size) t =
        spelled ⟨removals, insertions.filter fun insertion => before.byteSize < insertion.position⟩
          (before.byteSize + c.utf8Size) t :=
      spelled_congr (fun p lower _ => (inserted_filter fun insertion _ eq => by
        simp only [decide_eq_true_eq]; omega).symm) fun _ _ _ => rfl
    have first : insertions.filter (fun insertion => insertion.position = before.byteSize) =
        insertions.filter fun insertion => insertion.position < before.byteSize + 1 := by
      apply List.filter_congr
      intro insertion member
      have := within insertion member
      simp only [decide_eq_decide]
      omega
    have all := filter_before_append (before.byteSize + 1) ordered.sorted
    simp only [Nat.succ_le_iff] at all
    rw [spelled, gone, same, rest, inserted, first, if_pos rfl, List.append_nil,
      ← List.flatMap_append, all]

theorem spelled_of_gap {source : Text} {gap : Span} {insertions : List Insertion}
    (ordered : Ordered source insertions) (atStart : source.IsBoundary gap.start)
    (atStop : source.IsBoundary gap.stop) (proper : gap.start ≤ gap.stop)
    (within : ∀ insertion ∈ insertions, gap.start ≤ insertion.position ∧ insertion.position ≤ gap.stop) :
    spelled ⟨[gap], insertions⟩ gap.start (source.slice gap.start gap.stop) =
      insertions.flatMap Insertion.text := by
  obtain ⟨before, middle, after, here, size, size'⟩ := atStart.split atStop proper
  have stretch : source.slice gap.start gap.stop = middle := by
    rw [here, ← size, ← size', Text.slice_append]
  rw [stretch, ← size]
  refine spelled_removed ordered here (fun insertion member => ?_) fun p lower upper => ?_
  · have := within insertion member
    omega
  · simp only [removes, List.any_cons, List.any_nil, Bool.or_false, Bool.and_eq_true, decide_eq_true_eq]
    omega

/-- Up to the next gap, insertions that were overtaken by a gap come first and all others where they
belong. -/
theorem fill_eq {source : Text} {insertions : List Insertion} {cursor stop : Nat}
    (ordered : Ordered source insertions) (atCursor : source.IsBoundary cursor)
    (atStop : source.IsBoundary stop) (forward : cursor ≤ stop)
    (due : ∀ insertion ∈ insertions, insertion.position ≤ stop) :
    fill source cursor stop insertions =
      (insertions.filter fun insertion => insertion.position < cursor).flatMap Insertion.text ++
        spelled ⟨[], insertions⟩ cursor (source.slice cursor stop) := by
  induction insertions generalizing cursor with
  | nil =>
    rw [fill, spelled_untouched (fun _ _ _ => rfl) fun _ _ _ => rfl]
    rfl
  | cons first rest ih =>
    have order := (List.pairwise_cons.mp ordered.sorted).1
    have firstDue := due first List.mem_cons_self
    have restDue := fun insertion member => due insertion (List.mem_cons_of_mem _ member)
    rw [fill]
    by_cases overtaken : first.position < cursor
    · have same : spelled ⟨[], first :: rest⟩ cursor (source.slice cursor stop) =
          spelled ⟨[], rest⟩ cursor (source.slice cursor stop) := by
        apply spelled_congr
        · intro p lower _
          have other : first.position ≠ p := by omega
          simp only [inserted, List.filter_cons, other, decide_false, Bool.false_eq_true, if_false]
        · exact fun _ _ _ => rfl
      simp only [Nat.max_eq_right (Nat.le_of_lt overtaken), Text.slice_self, List.nil_append,
        ih ordered.tail atCursor forward restDue, List.filter_cons, overtaken, decide_true, if_true,
        List.flatMap_cons, same, List.append_assoc]
    · have ahead : cursor ≤ first.position := Nat.not_lt.mp overtaken
      have atFirst : source.IsBoundary first.position :=
        ordered.boundaries first List.mem_cons_self (Nat.le_trans firstDue atStop.le)
      have noneBefore (n : Nat) (before : n ≤ first.position) :
          rest.filter (fun insertion => insertion.position < n) = [] := by
        rw [List.filter_eq_nil_iff]
        intro insertion member
        have := order insertion member
        simp only [decide_eq_true_eq]
        omega
      have size : cursor + (source.slice cursor first.position).byteSize = first.position := by
        rw [Text.byteSize_slice atCursor atFirst ahead]
        omega
      -- the insertion ends the stretch before it, all others concern the stretch after it
      have upTo : spelled ⟨[], [first]⟩ cursor (source.slice cursor first.position) =
          source.slice cursor first.position ++ first.text := by
        rw [spelled_atEnd fun insertion member => by rw [List.mem_singleton.mp member, size],
          List.flatMap_singleton]
      have apart := spelled_append ⟨[], [first]⟩ ⟨[], rest⟩
        (s := source.slice cursor first.position) (t := source.slice first.position stop) (n := cursor)
        (fun p less => inserted_eq_nil fun insertion member => by
          rw [List.mem_singleton.mp member]; omega)
        (fun _ _ => rfl)
        (fun p less => inserted_eq_nil fun insertion member => by
          have := order insertion member; omega)
        (fun _ _ => rfl)
      rw [Text.slice_append_slice atCursor atFirst atStop ahead firstDue, upTo, size] at apart
      have rest := ih ordered.tail atFirst firstDue restDue
      rw [noneBefore _ (Nat.le_refl _), List.flatMap_nil, List.nil_append] at rest
      simp only [Nat.max_eq_left ahead, rest, List.filter_cons, overtaken, decide_false,
        Bool.false_eq_true, if_false, noneBefore _ ahead, List.flatMap_nil, List.nil_append]
      exact apart.symm

/-- A gap leaves what is put in inside it, and what is put in behind it comes where it belongs. -/
theorem spelled_from_gap {source : Text} {gap : Span} {gaps : List Span} {late : List Insertion}
    (ordered : Ordered source late) (ahead : ∀ insertion ∈ late, gap.start < insertion.position)
    (proper : gap.start ≤ gap.stop) (atStart : source.IsBoundary gap.start) (atStop : source.IsBoundary gap.stop)
    (others : Apart source gap.stop gaps) :
    spelled ⟨gap :: gaps, late⟩ gap.start (source.slice gap.start source.byteSize) =
      (late.filter fun insertion => insertion.position < gap.stop).flatMap Insertion.text ++
        spelled ⟨gaps, late⟩ gap.stop (source.slice gap.stop source.byteSize) := by
  have both := filter_before_append gap.stop ordered.sorted
  have size : gap.start + (source.slice gap.start gap.stop).byteSize = gap.stop := by
    rw [Text.byteSize_slice atStart atStop proper]
    omega
  have fromStop : spelled ⟨gaps, late⟩ gap.stop (source.slice gap.stop source.byteSize) =
      spelled ⟨gaps, late.filter fun insertion => gap.stop ≤ insertion.position⟩ gap.stop
        (source.slice gap.stop source.byteSize) := by
    refine spelled_congr (fun p lower _ => ?_) fun _ _ _ => rfl
    exact (inserted_filter fun insertion _ here => by simp only [decide_eq_true_eq]; omega).symm
  generalize midEq : (late.filter fun insertion => insertion.position < gap.stop) = mid at both ⊢
  generalize lastEq : (late.filter fun insertion => gap.stop ≤ insertion.position) = last at both fromStop
  have inMid {insertion : Insertion} (member : insertion ∈ mid) :
      gap.start < insertion.position ∧ insertion.position < gap.stop := by
    rw [← midEq, List.mem_filter] at member
    exact ⟨ahead insertion member.1, by simpa using member.2⟩
  have inLast {insertion : Insertion} (member : insertion ∈ last) : gap.stop ≤ insertion.position := by
    rw [← lastEq] at member
    simpa using (List.mem_filter.mp member).2
  have removed : spelled ⟨[gap], mid⟩ gap.start (source.slice gap.start gap.stop) =
      mid.flatMap Insertion.text := by
    refine spelled_of_gap (midEq ▸ ordered.filter _) atStart atStop proper fun insertion member => ?_
    have := inMid member
    omega
  have grouped : (⟨gap :: gaps, late⟩ : Edits) = ⟨[gap], mid⟩ ++ ⟨gaps, last⟩ := by
    rw [← both]
    rfl
  have whole := spelled_append ⟨[gap], mid⟩ ⟨gaps, last⟩
    (s := source.slice gap.start gap.stop) (t := source.slice gap.stop source.byteSize) (n := gap.start)
    (fun p less => inserted_eq_nil fun insertion member => by have := inMid member; omega)
    (fun p less => removes_eq_false fun span member => by rw [List.mem_singleton.mp member]; omega)
    (fun p less => inserted_eq_nil fun insertion member => by have := inLast member; omega)
    (fun p less => removes_eq_false fun span member => by have := others.above member; omega)
  rw [size, removed, Text.slice_append_slice atStart atStop source.isBoundary_byteSize proper atStop.le] at whole
  rw [grouped, whole, fromStop]

/-- A gap divides a stretch in three. What is put in inside the gap comes at the end of it. -/
theorem spelled_gap {source : Text} {gap : Span} {gaps : List Span} {insertions : List Insertion}
    {cursor : Nat} (ordered : Ordered source insertions) (atCursor : source.IsBoundary cursor)
    (forward : cursor ≤ gap.start) (proper : gap.start ≤ gap.stop)
    (atStart : source.IsBoundary gap.start) (atStop : source.IsBoundary gap.stop)
    (others : Apart source gap.stop gaps) :
    spelled ⟨gap :: gaps, insertions⟩ cursor (source.slice cursor source.byteSize) =
      spelled ⟨[], insertions.filter fun insertion => insertion.position ≤ gap.start⟩ cursor
          (source.slice cursor gap.start) ++
        ((insertions.filter fun insertion => gap.start < insertion.position).filter
          fun insertion => insertion.position < gap.stop).flatMap Insertion.text ++
        spelled ⟨gaps, insertions.filter fun insertion => gap.start < insertion.position⟩ gap.stop
          (source.slice gap.stop source.byteSize) := by
  have both := filter_before_append (gap.start + 1) ordered.sorted
  simp only [Nat.lt_succ_iff, Nat.succ_le_iff] at both
  have size : cursor + (source.slice cursor gap.start).byteSize = gap.start := by
    rw [Text.byteSize_slice atCursor atStart forward]
    omega
  have inLate : ∀ insertion ∈ insertions.filter (fun insertion => gap.start < insertion.position),
      gap.start < insertion.position := fun insertion member => by simpa using (List.mem_filter.mp member).2
  have fromGap := spelled_from_gap (ordered.filter _) inLate proper atStart atStop others
  generalize earlyEq : (insertions.filter fun insertion => insertion.position ≤ gap.start) = early at both ⊢
  generalize (insertions.filter fun insertion => gap.start < insertion.position) = late at both inLate fromGap ⊢
  have inEarly {insertion : Insertion} (member : insertion ∈ early) : insertion.position ≤ gap.start := by
    rw [← earlyEq] at member
    simpa using (List.mem_filter.mp member).2
  have grouped : (⟨gap :: gaps, insertions⟩ : Edits) = ⟨[], early⟩ ++ ⟨gap :: gaps, late⟩ := by
    rw [← both]
    rfl
  have whole := spelled_append ⟨[], early⟩ ⟨gap :: gaps, late⟩
    (s := source.slice cursor gap.start) (t := source.slice gap.start source.byteSize) (n := cursor)
    (fun p less => inserted_eq_nil fun insertion member => by have := inEarly member; omega)
    (fun _ _ => rfl)
    (fun p less => inserted_eq_nil fun insertion member => by have := inLate insertion member; omega)
    (fun p less => removes_eq_false fun span member => by
      rcases List.mem_cons.mp member with rfl | member
      · omega
      · have := others.above member
        omega)
  rw [size, fromGap, Text.slice_append_slice atCursor atStart source.isBoundary_byteSize forward atStart.le] at whole
  rw [grouped, whole, List.append_assoc]

/-- Weaving from gap to gap reads the source character by character. -/
theorem weave_eq {source : Text} {gaps : List Span} {insertions : List Insertion} {cursor : Nat}
    (ordered : Ordered source insertions) (atCursor : source.IsBoundary cursor)
    (apart : Apart source cursor gaps) :
    weave source cursor (gaps ++ [⟨source.byteSize, source.byteSize⟩]) insertions =
      (insertions.filter fun insertion => insertion.position < cursor).flatMap Insertion.text ++
        spelled ⟨gaps, insertions⟩ cursor (source.slice cursor source.byteSize) ++
        (insertions.filter fun insertion => source.byteSize < insertion.position).flatMap
          Insertion.text := by
  have dueBy (n : Nat) {list : List Insertion}
      (sorted : list.Pairwise fun a b => a.position ≤ b.position) :=
    takeWhile_due (fun insertion => insertion.position ≤ n)
      (fun a b le less => by simp only [decide_eq_true_eq] at *; omega) sorted
  simp only [← decide_not, Nat.not_le] at dueBy
  have overtaken {list : List Insertion} {cursor stop : Nat} (forward : cursor ≤ stop) :=
    filter_filter_of_imp list (p := fun insertion => insertion.position < cursor)
      (q := fun insertion => insertion.position ≤ stop) fun insertion less => by
        simp only [decide_eq_true_eq] at *
        omega
  have isDue {list : List Insertion} {stop : Nat} {insertion : Insertion}
      (member : insertion ∈ list.filter fun insertion => insertion.position ≤ stop) :
      insertion.position ≤ stop := by simpa using (List.mem_filter.mp member).2
  induction apart generalizing insertions with
  | @nil cursor =>
    obtain ⟨taken, dropped⟩ := dueBy source.byteSize ordered.sorted
    have same : spelled ⟨[], insertions.filter fun insertion => insertion.position ≤ source.byteSize⟩
        cursor (source.slice cursor source.byteSize) =
        spelled ⟨[], insertions⟩ cursor (source.slice cursor source.byteSize) := by
      apply spelled_congr
      · intro p _ upper
        rw [Text.byteSize_slice atCursor source.isBoundary_byteSize atCursor.le] at upper
        have := atCursor.le
        exact inserted_filter fun insertion _ here => by simp only [decide_eq_true_eq]; omega
      · exact fun _ _ _ => rfl
    rw [List.nil_append, weave, weave, taken, dropped,
      fill_eq (ordered.filter _) atCursor source.isBoundary_byteSize atCursor.le fun _ => isDue, same,
      overtaken atCursor.le]
  | @cons cursor gap gaps forward proper atStart atStop others ih =>
    obtain ⟨taken, dropped⟩ := dueBy gap.start ordered.sorted
    have outside := filter_filter_of_imp insertions
      (p := fun insertion => source.byteSize < insertion.position)
      (q := fun insertion => gap.start < insertion.position) fun insertion less => by
        have := atStart.le
        simp only [decide_eq_true_eq] at *
        omega
    rw [List.cons_append, weave, taken, dropped,
      fill_eq (ordered.filter _) atCursor atStart forward fun _ => isDue, ih (ordered.filter _) atStop,
      overtaken forward, outside, spelled_gap ordered atCursor forward proper atStart atStop others]
    simp only [List.append_assoc]

/-- Insertions at one position keep their order. -/
theorem filter_mergeSort (insertions : List Insertion) (n : Nat) :
    (insertions.mergeSort fun a b => a.position ≤ b.position).filter
        (fun insertion => insertion.position = n) =
      insertions.filter fun insertion => insertion.position = n := by
  have among : insertions.filter (fun insertion => insertion.position = n) |>.Sublist
      (insertions.mergeSort fun a b => a.position ≤ b.position) := by
    refine List.sublist_mergeSort (fun a b c first second => ?_) (fun a b => ?_) ?_ List.filter_sublist
    · simp only [decide_eq_true_eq] at *
      omega
    · simp only [Bool.or_eq_true, decide_eq_true_eq]
      omega
    · refine List.pairwise_of_forall_mem_list fun a memberA b memberB => ?_
      have := (List.mem_filter.mp memberA).2
      have := (List.mem_filter.mp memberB).2
      simp only [decide_eq_true_eq] at *
      omega
  have kept := among.filter fun insertion => insertion.position = n
  rw [List.filter_filter] at kept
  simp only [Bool.and_self] at kept
  refine (kept.eq_of_length ?_).symm
  exact ((List.mergeSort_perm insertions _).filter _).length_eq.symm

/-- The insertions are made in the order of their positions. -/
theorem OnBoundaries.ordered {edits : Edits} {source : Text} (within : edits.OnBoundaries source) :
    Ordered source (edits.insertions.mergeSort fun a b => a.position ≤ b.position) :=
  ⟨mergeSort_sorted Insertion.position edits.insertions,
    fun insertion member => within.positions insertion (List.mem_mergeSort.mp member)⟩

/-- Making all changes in one pass, from gap to gap, reads the source character by character: at each
byte first what is put in there, then the character unless some removal contains it. What is put in
beyond the source comes at the very end. -/
theorem apply_eq_spelled {edits : Edits} {source : Text} (within : edits.OnBoundaries source) :
    edits.apply source = edits.spelled 0 source ++ edits.beyond source.byteSize := by
  have same : spelled ⟨edits.gaps source.byteSize,
      edits.insertions.mergeSort fun a b => a.position ≤ b.position⟩ 0 source =
      edits.spelled 0 source := by
    apply spelled_congr
    · intro p _ _
      rw [inserted, inserted, filter_mergeSort]
    · intro p _ upper
      exact removes_gaps _ (by omega)
  have whole := weave_eq within.ordered source.isBoundary_zero (gaps_apart within)
  rw [Text.slice_zero_byteSize, same] at whole
  have none : (edits.insertions.mergeSort fun a b => a.position ≤ b.position).filter
      (fun insertion => insertion.position < 0) = [] :=
    List.filter_eq_nil_iff.mpr fun insertion _ => by simp
  rw [none, List.flatMap_nil, List.nil_append] at whole
  exact whole

end Edits

end MarkupTemplates
