import MarkupTemplates.Proofs.Symbols.Consistency

namespace MarkupTemplates

theorem Text.lt_of_not_lt {s t : Text} (other : ¬ s = t) (above : ¬ s < t) : t < s := by
  rw [← Decidable.not_not (p := t < s), List.not_lt]
  exact fun le => other (List.le_antisymm le (List.not_lt.mp above))

namespace NameSet

variable {names : NameSet}

theorem mem_insert_iff {name other : Text} : other ∈ names.insert name ↔ other = name ∨ other ∈ names := by
  induction names with
  | nil => rw [insert, List.mem_singleton, List.mem_nil_iff, or_false]
  | cons n names ih =>
    rw [insert]
    by_cases same : name = n
    · rw [if_pos same, same, List.mem_cons, or_self_left]
    · rw [if_neg same]
      by_cases less : name < n
      · rw [if_pos less, List.mem_cons]
      · rw [if_neg less, List.mem_cons, ih, List.mem_cons, or_left_comm]

theorem pairwise_insert (ordered : names.Pairwise (· < ·)) (name : Text) : (names.insert name).Pairwise (· < ·) := by
  induction names with
  | nil => exact List.pairwise_singleton _ _
  | cons n names ih =>
    obtain ⟨first, rest⟩ := List.pairwise_cons.mp ordered
    rw [insert]
    by_cases same : name = n
    · rw [if_pos same]
      exact ordered
    · rw [if_neg same]
      by_cases less : name < n
      · rw [if_pos less]
        exact List.pairwise_cons.mpr
          ⟨List.forall_mem_cons.mpr ⟨less, fun later member => List.lt_trans less (first later member)⟩, ordered⟩
      · rw [if_neg less]
        refine List.pairwise_cons.mpr ⟨fun later member => ?_, ih rest⟩
        rcases mem_insert_iff.mp member with rfl | member
        · exact Text.lt_of_not_lt same less
        · exact first later member

theorem mem_foldl_insert_iff {more : List Text} {other : Text} :
    other ∈ more.foldl NameSet.insert names ↔ other ∈ more ∨ other ∈ names := by
  induction more generalizing names with
  | nil => simp
  | cons name more ih => rw [List.foldl_cons, ih, mem_insert_iff, List.mem_cons, or_left_comm, or_assoc]

theorem pairwise_foldl_insert (ordered : names.Pairwise (· < ·)) (more : List Text) :
    (more.foldl NameSet.insert names).Pairwise (· < ·) := by
  induction more generalizing names with
  | nil => exact ordered
  | cons name more ih => exact ih (pairwise_insert ordered name)

end NameSet

namespace Dictionary

variable {α : Type}

theorem mem_of_get? {d : Dictionary α} {key : Text} {value : α} (h : d.get? key = some value) :
    (key, value) ∈ d := by
  obtain ⟨⟨key', value'⟩, found, rfl⟩ := Option.map_eq_some_iff.mp h
  have own := List.find?_some found
  obtain rfl : key' = key := of_decide_eq_true own
  exact List.mem_of_find?_eq_some found

theorem get?_eq_none_iff {d : Dictionary α} {key : Text} : d.get? key = none ↔ key ∉ d.keys := by
  rw [mem_keys_iff, Option.not_isSome_iff_eq_none]

/-- Entries under distinct names, in the order of the names. -/
def Ordered (d : Dictionary α) : Prop := d.Pairwise fun a b => a.1 < b.1

theorem ordered_iff {d : Dictionary α} : d.Ordered ↔ d.keys.Pairwise (· < ·) := List.pairwise_map.symm

theorem Ordered.insert {d : Dictionary α} (ordered : d.Ordered) (key : Text) (value : α) :
    (d.insert key value).Ordered := by
  rw [ordered_iff, keys_insert]
  exact NameSet.pairwise_insert (ordered_iff.mp ordered) key

theorem Ordered.get?_of_mem {d : Dictionary α} (ordered : d.Ordered) {key : Text} {value : α}
    (member : (key, value) ∈ d) : d.get? key = some value := by
  induction d with
  | nil => exact absurd member List.not_mem_nil
  | cons entry d ih =>
    obtain ⟨k, v⟩ := entry
    obtain ⟨first, rest⟩ := List.pairwise_cons.mp ordered
    rw [get?_cons]
    rcases List.mem_cons.mp member with eq | member
    · obtain ⟨rfl, rfl⟩ := Prod.mk.inj eq
      rw [if_pos rfl]
    · have less : k < key := first (key, value) member
      have other : ¬ k = key := fun same => List.lt_irrefl key (same ▸ less)
      rw [if_neg other]
      exact ih rest member

/-- What is laid over a dictionary hides what it has under the same names. -/
theorem get?_overlay (d : Dictionary α) {above : Dictionary α} (ordered : above.Ordered) (key : Text) :
    (d.overlay above).get? key = (above.get? key).or (d.get? key) := by
  rw [overlay]
  induction above generalizing d with
  | nil => rfl
  | cons entry above ih =>
    obtain ⟨k, v⟩ := entry
    obtain ⟨first, rest⟩ := List.pairwise_cons.mp ordered
    rw [List.foldl_cons, ih _ rest, get?_insert, get?_cons]
    by_cases same : k = key
    · subst same
      have hidden : Dictionary.get? above k = none := by
        rw [get?_eq_none_iff]
        intro member
        obtain ⟨later, inside, own⟩ := List.mem_map.mp member
        exact List.lt_irrefl k (own ▸ first later inside)
      rw [if_pos rfl, if_pos rfl, hidden, Option.none_or, Option.some_or]
    · rw [if_neg same, if_neg same]

theorem get?_erase (d : Dictionary α) (key other : Text) :
    (d.erase key).get? other = if key = other then none else d.get? other := by
  induction d with
  | nil => rw [show Dictionary.erase ([] : Dictionary α) key = [] from rfl]; split <;> rfl
  | cons entry d ih =>
    obtain ⟨k, v⟩ := entry
    rw [erase] at ih ⊢
    by_cases erased : k = key
    · subst erased
      rw [List.filter_cons_of_neg (by simp), ih, get?_cons]
      by_cases same : k = other <;> simp only [same, if_true, if_false]
    · rw [List.filter_cons_of_pos (by simpa using erased), get?_cons, get?_cons, ih]
      by_cases same : k = other
      · rw [if_pos same, if_pos same, if_neg fun eq => erased (same.trans eq.symm)]
      · rw [if_neg same, if_neg same]

theorem Ordered.erase {d : Dictionary α} (ordered : d.Ordered) (key : Text) : (d.erase key).Ordered :=
  List.Pairwise.filter _ ordered

theorem Ordered.overlay {d : Dictionary α} (ordered : d.Ordered) (above : Dictionary α) :
    (d.overlay above).Ordered := by
  rw [Dictionary.overlay]
  induction above generalizing d with
  | nil => exact ordered
  | cons entry above ih => exact ih (ordered.insert entry.1 entry.2)

end Dictionary

end MarkupTemplates
