import Mathlib.Data.List.Basic
import MarkupTemplates.Charset
import MarkupTemplates.Proofs.Edit.Application

namespace MarkupTemplates

/-- A single change that is asked for. -/
inductive Edit where
  | remove (span : Span)
  | insert (position : Nat) (text : Text)
  deriving DecidableEq, Repr

namespace Edit

def removal? : Edit → Option Span
  | remove span => some span
  | insert .. => none

def insertion? : Edit → Option Insertion
  | remove _ => none
  | insert position text => some ⟨position, text⟩

/-- The bytes to put in before byte `p`, in the order in which they were asked for. -/
def putAt (list : List Edit) (p : Nat) : List UInt8 :=
  list.flatMap fun
    | remove _ => []
    | insert position text => if position = p then Charset.utf8.encode text else []

/-- Whether the byte at `p` is to be left out. -/
def leavesOut (list : List Edit) (p : Nat) : Bool :=
  list.any fun
    | remove span => span.start ≤ p && p < span.stop
    | insert .. => false

/-- The last position at which something is to be put in. -/
def reach : List Edit → Nat
  | [] => 0
  | remove _ :: rest => reach rest
  | insert position _ :: rest => max position (reach rest)

/-- A source gone through byte by byte: what is to be put in at a position, then the byte that is there
unless it is to be left out. The positions behind the source come last. -/
def bytewise (list : List Edit) (source : Text) : List UInt8 :=
  let bytes := Charset.utf8.encode source
  ((List.range (bytes.length + 1)).flatMap fun p =>
      putAt list p ++ if leavesOut list p then [] else bytes[p]?.toList) ++
    (List.range' (bytes.length + 1) (reach list - bytes.length)).flatMap (putAt list)

end Edit

namespace Edits

/-- The change asked for after those before it. -/
def record (edits : Edits) : Edit → Edits
  | .remove span => edits.remove span
  | .insert position text => edits.insert position text

/-- Changes asked for one after the other. -/
def ofList (list : List Edit) : Edits := list.foldl record {}

theorem foldl_record (edits : Edits) (list : List Edit) : list.foldl record edits =
    ⟨edits.removals ++ list.filterMap Edit.removal?, edits.insertions ++ list.filterMap Edit.insertion?⟩ := by
  induction list generalizing edits with
  | nil => simp only [List.foldl_nil, List.filterMap_nil, List.append_nil]
  | cons edit rest ih =>
    rw [List.foldl_cons, ih]
    cases edit <;>
      simp only [record, remove, insert, List.filterMap_cons, Edit.removal?, Edit.insertion?,
        List.append_assoc, List.singleton_append]

theorem ofList_eq (list : List Edit) :
    ofList list = ⟨list.filterMap Edit.removal?, list.filterMap Edit.insertion?⟩ := foldl_record {} list

theorem encode_flatMap (insertions : List Insertion) : Charset.utf8.encode (insertions.flatMap Insertion.text) =
    insertions.flatMap fun insertion => Charset.utf8.encode insertion.text := by
  simp only [Charset.encode, List.flatMap_assoc]

theorem encode_inserted (list : List Edit) (p : Nat) :
    Charset.utf8.encode ((ofList list).inserted p) = Edit.putAt list p := by
  rw [ofList_eq, inserted, encode_flatMap, Edit.putAt]
  induction list with
  | nil => rfl
  | cons edit rest ih =>
    cases edit with
    | remove span => exact ih
    | insert position text =>
      simp only [List.filterMap_cons, Edit.insertion?, List.filter_cons, List.flatMap_cons, ← ih]
      by_cases here : position = p
      · simp only [here, decide_true, if_true, List.flatMap_cons]
      · simp only [here, decide_false, Bool.false_eq_true, if_false, List.nil_append]

theorem removes_ofList (list : List Edit) (p : Nat) : (ofList list).removes p = Edit.leavesOut list p := by
  rw [ofList_eq, removes, Edit.leavesOut]
  induction list with
  | nil => rfl
  | cons edit rest ih =>
    cases edit with
    | remove span => simp only [List.filterMap_cons, Edit.removal?, List.any_cons, ih]
    | insert position text => simpa only [List.filterMap_cons, Edit.removal?, List.any_cons, Bool.false_or] using ih

theorem position_le_reach {list : List Edit} {insertion : Insertion}
    (member : insertion ∈ (ofList list).insertions) : insertion.position ≤ Edit.reach list := by
  rw [ofList_eq] at member
  induction list with
  | nil => exact absurd member List.not_mem_nil
  | cons edit rest ih =>
    cases edit with
    | remove span => exact ih member
    | insert position text =>
      rw [Edit.reach]
      rcases List.mem_cons.mp member with rfl | member
      · exact Nat.le_max_left ..
      · exact Nat.le_trans (ih member) (Nat.le_max_right ..)

/-- Insertions in order of their positions are found by going through the positions. -/
theorem flatMap_positions {insertions : List Insertion} {lo count : Nat}
    (sorted : insertions.Pairwise fun a b => a.position ≤ b.position)
    (within : ∀ insertion ∈ insertions, lo ≤ insertion.position ∧ insertion.position < lo + count) :
    ((List.range' lo count).flatMap fun p => insertions.filter fun insertion => insertion.position = p) =
      insertions := by
  induction count generalizing lo insertions with
  | zero =>
    cases insertions with
    | nil => rfl
    | cons first rest =>
      have := within first List.mem_cons_self
      omega
  | succ count ih =>
    have parts := filter_before_append (lo + 1) sorted
    have first : insertions.filter (fun insertion => insertion.position = lo) =
        insertions.filter fun insertion => insertion.position < lo + 1 := by
      refine List.filter_congr fun insertion member => ?_
      have := within insertion member
      rw [decide_eq_decide]
      omega
    have later := @ih _ (lo + 1) (sorted.filter fun insertion => lo + 1 ≤ insertion.position)
      fun insertion member => by
        obtain ⟨member, above⟩ := List.mem_filter.mp member
        have := within insertion member
        have := of_decide_eq_true above
        omega
    -- the later positions concern the later insertions alone
    have others : ((List.range' (lo + 1) count).flatMap fun p =>
        insertions.filter fun insertion => insertion.position = p) =
        (List.range' (lo + 1) count).flatMap fun p =>
          (insertions.filter fun insertion => lo + 1 ≤ insertion.position).filter
            fun insertion => insertion.position = p := by
      refine List.flatMap_congr fun p member => ?_
      obtain ⟨i, _, rfl⟩ := List.mem_range'.mp member
      refine (filter_filter_of_imp insertions fun insertion here => ?_).symm
      simp only [decide_eq_true_eq] at *
      omega
    rw [List.range'_succ, List.flatMap_cons, first, others, later, parts]

theorem encode_beyond (list : List Edit) (size : Nat) : Charset.utf8.encode ((ofList list).beyond size) =
    (List.range' (size + 1) (Edit.reach list - size)).flatMap (Edit.putAt list) := by
  let late := ((ofList list).insertions.mergeSort fun a b => a.position ≤ b.position).filter fun insertion =>
    size < insertion.position
  have sorted : late.Pairwise fun a b => a.position ≤ b.position :=
    (mergeSort_sorted Insertion.position _).filter _
  have within : ∀ insertion ∈ late,
      size + 1 ≤ insertion.position ∧ insertion.position < size + 1 + (Edit.reach list - size) := by
    intro insertion member
    obtain ⟨member, above⟩ := List.mem_filter.mp member
    have := position_le_reach (List.mem_mergeSort.mp member)
    have := of_decide_eq_true above
    omega
  have found (p : Nat) (beyond : size < p) : late.filter (fun insertion => insertion.position = p) =
      (ofList list).insertions.filter fun insertion => insertion.position = p := by
    rw [filter_filter_of_imp _ fun insertion here => ?_, filter_mergeSort]
    simp only [decide_eq_true_eq] at *
    omega
  rw [beyond, encode_flatMap, show List.filter _ _ = late from rfl, ← flatMap_positions sorted within,
    List.flatMap_assoc]
  refine List.flatMap_congr fun p member => ?_
  obtain ⟨i, _, rfl⟩ := List.mem_range'.mp member
  rw [found _ (by omega), ← encode_flatMap, ← encode_inserted]
  rfl

theorem length_encode (t : Text) : (Charset.utf8.encode t).length = t.byteSize := by
  induction t with
  | nil => rfl
  | cons c t ih =>
    rw [Text.byteSize_cons, ← ih, ← String.length_utf8EncodeChar]
    exact List.length_append

/-- Going through a stretch of a list position by position finds what is there. -/
theorem flatMap_getElem? {α : Type} (before middle after : List α) :
    ((List.range' before.length middle.length).flatMap fun p => (before ++ middle ++ after)[p]?.toList) = middle := by
  induction middle generalizing before with
  | nil => rfl
  | cons a middle ih =>
    have rest := ih (before ++ [a])
    rw [List.length_append, List.length_singleton, List.append_assoc before, List.singleton_append] at rest
    have here : (before ++ a :: middle ++ after)[before.length]? = some a := by
      rw [List.append_assoc, List.getElem?_append_right (Nat.le_refl _), Nat.sub_self]
      rfl
    rw [List.length_cons, List.range'_succ, List.flatMap_cons, here, rest]
    rfl

section

variable {edits : Edits} {source before t : Text} {c : Char}

/-- Nothing is put in strictly inside a character. -/
theorem OnBoundaries.inserted_inside {p : Nat} (within : edits.OnBoundaries source) (here : source = before ++ c :: t)
    (above : before.byteSize < p) (inside : p < before.byteSize + c.utf8Size) : edits.inserted p = [] :=
  inserted_eq_nil fun insertion member eq => by
    have := beyond_char_of_within here (within.positions insertion member) (by omega)
    omega

/-- A character is left out as a whole or not at all. -/
theorem OnBoundaries.removes_inside {p : Nat} (within : edits.OnBoundaries source) (here : source = before ++ c :: t)
    (above : before.byteSize ≤ p) (inside : p < before.byteSize + c.utf8Size) :
    edits.removes p = edits.removes before.byteSize := by
  rw [removes, removes, Bool.eq_iff_iff]
  simp only [List.any_eq_true, Bool.and_eq_true, decide_eq_true_eq]
  refine exists_congr fun span => and_congr_right fun member => ?_
  have start := beyond_char_of_within here (within.starts span member)
  have stop := beyond_char_of_within here (within.stops span member)
  omega

/-- The bytes of a source at the positions of a character are those of the character. -/
theorem flatMap_bytes_of_char (here : source = before ++ c :: t) :
    (List.range' before.byteSize c.utf8Size).flatMap (fun p => (Charset.utf8.encode source)[p]?.toList) =
      String.utf8EncodeChar c := by
  have found := flatMap_getElem? (Charset.utf8.encode before) (String.utf8EncodeChar c) (Charset.utf8.encode t)
  have split : Charset.utf8.encode source =
      Charset.utf8.encode before ++ String.utf8EncodeChar c ++ Charset.utf8.encode t := by
    rw [here]
    simp only [Charset.encode, List.flatMap_append, List.flatMap_cons, List.append_assoc]
  rw [split, ← length_encode, ← String.length_utf8EncodeChar]
  exact found

/-- The positions of a character come to what is put in before it, and to the character unless it is left out. -/
theorem flatMap_changes_of_char (within : edits.OnBoundaries source) (here : source = before ++ c :: t) :
    (List.range' before.byteSize c.utf8Size).flatMap (fun p => Charset.utf8.encode (edits.inserted p) ++
        if edits.removes p then [] else (Charset.utf8.encode source)[p]?.toList) =
      Charset.utf8.encode (edits.inserted before.byteSize) ++
        if edits.removes before.byteSize then [] else String.utf8EncodeChar c := by
  have positive := c.utf8Size_pos
  obtain ⟨more, split⟩ : ∃ more, c.utf8Size = more + 1 := ⟨c.utf8Size - 1, by omega⟩
  have others : ((List.range' (before.byteSize + 1) more).flatMap fun p =>
      Charset.utf8.encode (edits.inserted p) ++
        if edits.removes p then [] else (Charset.utf8.encode source)[p]?.toList) =
      (List.range' (before.byteSize + 1) more).flatMap fun p =>
        if edits.removes before.byteSize then [] else (Charset.utf8.encode source)[p]?.toList := by
    refine List.flatMap_congr fun p member => ?_
    obtain ⟨i, less, rfl⟩ := List.mem_range'.mp member
    rw [within.inserted_inside here (by omega) (by omega), within.removes_inside here (by omega) (by omega)]
    rfl
  rw [← flatMap_bytes_of_char here, split, List.range'_succ, List.flatMap_cons, others, List.flatMap_cons,
    List.append_assoc]
  cases edits.removes before.byteSize with
  | true =>
    have nothing : (List.range' (before.byteSize + 1) more).flatMap (fun _ => ([] : List UInt8)) = [] :=
      List.flatMap_eq_nil_iff.mpr fun _ _ => rfl
    simp only [if_true, nothing, List.append_nil]
  | false => rfl

end

/-- A stretch with the changes made is the same character by character and byte by byte: changes never lie
inside a character. -/
theorem encode_spelled {edits : Edits} {source before t : Text} (within : edits.OnBoundaries source)
    (here : source = before ++ t) : Charset.utf8.encode (edits.spelled before.byteSize t) =
      (List.range' before.byteSize (t.byteSize + 1)).flatMap fun p => Charset.utf8.encode (edits.inserted p) ++
        if edits.removes p then [] else (Charset.utf8.encode source)[p]?.toList := by
  induction t generalizing before with
  | nil =>
    rw [List.append_nil] at here
    subst here
    have none : (Charset.utf8.encode source)[source.byteSize]? = none :=
      List.getElem?_eq_none (Nat.le_of_eq (length_encode source))
    rw [spelled, Text.byteSize_nil, List.range'_one, List.flatMap_singleton, none]
    split <;> exact (List.append_nil _).symm
  | cons c t ih =>
    have rest := @ih (before ++ [c]) (by rw [here, List.append_assoc, List.singleton_append])
    have next : (before ++ [c]).byteSize = before.byteSize + c.utf8Size := by
      rw [Text.byteSize_append, Text.byteSize_cons, Text.byteSize_nil, Nat.add_zero]
    rw [Text.byteSize_cons, Nat.add_assoc, ← List.range'_append_1, List.flatMap_append,
      flatMap_changes_of_char within here, ← next, ← rest, spelled, next]
    simp only [Charset.encode, List.flatMap_append]
    cases edits.removes before.byteSize with
    | true => rfl
    | false => rw [if_neg Bool.false_ne_true, if_neg Bool.false_ne_true, List.flatMap_singleton]

theorem OnBoundaries.of_same {edits other : Edits} {source : Text} (within : edits.OnBoundaries source)
    (removals : other.removals.Perm edits.removals) (insertions : other.insertions = edits.insertions) :
    other.OnBoundaries source where
  starts span member := within.starts span (removals.subset member)
  stops span member := within.stops span (removals.subset member)
  positions insertion member := within.positions insertion (insertions ▸ member)

/-- Changes made in one pass, from gap to gap, come to the same as those made byte by byte. So it does not matter
in which order removals were asked for, nor whether before or after what is put in. -/
theorem apply_eq_bytewise {source : Text} {list : List Edit} (within : (ofList list).OnBoundaries source) :
    Charset.utf8.encode ((ofList list).apply source) = Edit.bytewise list source ∧
      ∀ other : List Edit, (other.filterMap Edit.removal?).Perm (list.filterMap Edit.removal?) →
        other.filterMap Edit.insertion? = list.filterMap Edit.insertion? →
        (ofList other).apply source = (ofList list).apply source := by
  constructor
  · have spelled := @encode_spelled (ofList list) source [] source within rfl
    have split : ∀ s t : Text, Charset.utf8.encode (s ++ t) = Charset.utf8.encode s ++ Charset.utf8.encode t :=
      fun _ _ => List.flatMap_append
    simp only [encode_inserted, removes_ofList, Text.byteSize_nil, ← List.range_eq_range'] at spelled
    rw [apply_eq_spelled within, split, spelled, encode_beyond, Edit.bytewise, length_encode]
  · intro other removals insertions
    have within' : (ofList other).OnBoundaries source :=
      within.of_same (by rw [ofList_eq, ofList_eq]; exact removals) (by rw [ofList_eq, ofList_eq]; exact insertions)
    have inserted (p : Nat) : (ofList other).inserted p = (ofList list).inserted p := by
      rw [ofList_eq, ofList_eq, insertions]
      rfl
    have removed (p : Nat) : (ofList other).removes p = (ofList list).removes p := by
      rw [ofList_eq, ofList_eq]
      exact removals.any_eq
    have beyond : (ofList other).beyond source.byteSize = (ofList list).beyond source.byteSize := by
      rw [ofList_eq, ofList_eq, insertions]
      rfl
    rw [apply_eq_spelled within, apply_eq_spelled within', beyond,
      spelled_congr (fun p _ _ => inserted p) fun p _ _ => removed p]

/-- Removals that overlap, that touch, that run backwards and past the end, and texts put in where one begins, inside
it, where it ends and behind the source, which is asked for in another order, too. -/
theorem apply_eq_bytewise_of_overlaps :
    let source : Text := "aäbcé"
    let list : List Edit := [.remove ⟨3, 5⟩, .insert 9 "y", .insert 3 "2", .remove ⟨1, 4⟩, .insert 1 "1", .remove ⟨5, 3⟩,
      .remove ⟨5, 5⟩, .insert 8 "x", .insert 3 "3", .insert 5 "4", .remove ⟨5, 70⟩]
    let other : List Edit := [.remove ⟨5, 70⟩, .remove ⟨1, 4⟩, .remove ⟨5, 5⟩, .insert 9 "y", .insert 3 "2",
      .insert 1 "1", .insert 8 "x", .insert 3 "3", .insert 5 "4", .remove ⟨3, 5⟩, .remove ⟨5, 3⟩]
    (ofList list).OnBoundaries source ∧
      Charset.utf8.encode ((ofList list).apply source) = Charset.utf8.encode "a1234xy" ∧
      (ofList other).apply source = (ofList list).apply source := by
  intro source list other
  have within : (ofList list).OnBoundaries source := ⟨by decide, by decide, by decide⟩
  have bytes : Edit.bytewise list source = Charset.utf8.encode "a1234xy" := by decide
  obtain ⟨applied, same⟩ := apply_eq_bytewise within
  exact ⟨within, applied.trans bytes, same other (by decide) (by decide)⟩

end Edits

end MarkupTemplates
