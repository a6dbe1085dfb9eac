import MarkupTemplates.Dialect

namespace MarkupTemplates

namespace Dictionary

variable {α : Type}

theorem get?_cons (k : Text) (v : α) (d : Dictionary α) (key : Text) :
    get? ((k, v) :: d) key = if k = key then some v else d.get? key := by
  rw [get?, List.find?_cons]
  by_cases same : k = key
  · rw [if_pos same, decide_eq_true same]
    rfl
  · rw [if_neg same, decide_eq_false same]
    rfl

/-- An entry that is put in hides an earlier one of its name and no other. -/
theorem get?_insert (d : Dictionary α) (key other : Text) (value : α) :
    (d.insert key value).get? other = if key = other then some value else d.get? other := by
  induction d with
  | nil => rw [insert, get?_cons]
  | cons entry d ih =>
    obtain ⟨k, v⟩ := entry
    rw [insert, get?_cons]
    by_cases same : key = k
    · subst same
      rw [if_pos rfl, get?_cons]
      by_cases own : key = other <;> simp only [own, if_true, if_false]
    · rw [if_neg same]
      by_cases less : key < k
      · rw [if_pos less, get?_cons, get?_cons]
      · rw [if_neg less, get?_cons, ih]
        by_cases here : k = other
        · subst here
          rw [if_pos rfl, if_neg same, if_pos rfl]
        · rw [if_neg here, if_neg here]

theorem mem_insert {d : Dictionary α} {key : Text} {value : α} {entry : Text × α}
    (member : entry ∈ d.insert key value) : entry = (key, value) ∨ entry ∈ d := by
  induction d with
  | nil => exact Or.inl (List.mem_singleton.mp member)
  | cons first d ih =>
    obtain ⟨k, v⟩ := first
    rw [insert] at member
    split at member
    · rcases List.mem_cons.mp member with own | later
      · exact Or.inl own
      · exact Or.inr (List.mem_cons_of_mem _ later)
    · split at member
      · exact List.mem_cons.mp member
      · rcases List.mem_cons.mp member with own | later
        · exact Or.inr (by rw [own]; exact List.mem_cons_self)
        · exact (ih later).imp_right (List.mem_cons_of_mem _)

theorem mem_keys_iff (d : Dictionary α) (key : Text) : key ∈ d.keys ↔ (d.get? key).isSome = true := by
  induction d with
  | nil => simp [keys, get?]
  | cons entry d ih =>
    obtain ⟨k, v⟩ := entry
    rw [get?_cons, keys, List.map_cons, List.mem_cons]
    by_cases same : k = key
    · rw [if_pos same]
      exact ⟨fun _ => rfl, fun _ => Or.inl same.symm⟩
    · rw [if_neg same, ← ih]
      exact ⟨fun member => member.resolve_left fun eq => same eq.symm, Or.inr⟩

/-- Names in a set and names of entries are kept in the same order. -/
theorem keys_insert (d : Dictionary α) (key : Text) (value : α) :
    (d.insert key value).keys = NameSet.insert d.keys key := by
  induction d with
  | nil => rfl
  | cons entry d ih =>
    obtain ⟨k, v⟩ := entry
    rw [insert, keys, keys, List.map_cons, NameSet.insert]
    by_cases same : key = k
    · rw [if_pos same, if_pos same, List.map_cons, same]
    · rw [if_neg same, if_neg same]
      by_cases less : key < k
      · rw [if_pos less, if_pos less]
        rfl
      · rw [if_neg less, if_neg less, List.map_cons]
        exact congrArg (k :: ·) ih

end Dictionary

/-- An attempt to give a name a type, for a variable or for a parameter. -/
structure Declaration where
  parameter : Bool
  name : Text
  type : Text
  deriving DecidableEq, Repr

namespace SymbolTable

variable {table table' table'' : SymbolTable} {name type found : Text}

def attempt (table : SymbolTable) (d : Declaration) : Except Text SymbolTable :=
  if d.parameter then table.declareParameter d.name d.type else table.declare d.name d.type

/-- The table after the attempt; one that fails changes nothing. -/
def declared (table : SymbolTable) (d : Declaration) : SymbolTable :=
  match table.attempt d with
  | .ok table => table
  | .error _ => table

/-- All names are variables of one type, and parameters are listed once and with the types that they
have as variables. -/
structure Consistent (table : SymbolTable) : Prop where
  names : table.names = table.types.keys
  distinct : table.parameters.Nodup
  among : ∀ name ∈ table.parameters, name ∈ table.names
  typed : table.parameterTypes.map some = table.parameters.map table.types.get?

/-- No type that is known before is another one after. -/
def Keeps (table table' : SymbolTable) : Prop :=
  ∀ name type, table.types.get? name = some type → table'.types.get? name = some type

theorem Keeps.refl (table : SymbolTable) : table.Keeps table := fun _ _ known => known

theorem Keeps.trans (one : table.Keeps table') (two : table'.Keeps table'') : table.Keeps table'' :=
  fun name type known => two name type (one name type known)

/-- Either the name has its type already, or it is new. -/
theorem declare_cases (h : table.declare name type = .ok table') :
    (table.types.get? name = some type ∧ table' = table) ∨
      (table.types.get? name = none ∧ table' = { table with
        names := table.names.insert name
        types := table.types.insert name type }) := by
  unfold declare at h
  split at h
  · next found known =>
    split at h
    · next same =>
      rw [same] at known
      exact Or.inl ⟨known, (Except.ok.inj h).symm⟩
    · simp at h
  · next unknown => exact Or.inr ⟨unknown, (Except.ok.inj h).symm⟩

theorem declare_error_iff : table.declare name type = .error found ↔
    table.types.get? name = some found ∧ found ≠ type := by
  unfold declare
  cases known : table.types.get? name with
  | none => simp
  | some other =>
    by_cases same : other = type
    · simp only [same, if_true, Option.some.injEq]
      exact ⟨nofun, fun ⟨eq, ne⟩ => absurd eq.symm ne⟩
    · simp only [same, if_false, Option.some.injEq, Except.error.injEq]
      exact ⟨fun eq => ⟨eq, fun other => same (eq.trans other)⟩, And.left⟩

theorem declareParameter_cases (h : table.declareParameter name type = .ok table') :
    ∃ between, table.declare name type = .ok between ∧
      ((name ∈ between.parameters ∧ table' = between) ∨
        (name ∉ between.parameters ∧ table' = { between with
          parameters := between.parameters ++ [name]
          parameterTypes := between.parameterTypes ++ [type] })) := by
  unfold declareParameter at h
  cases declared : table.declare name type with
  | error found => simp [declared, Except.map] at h
  | ok between =>
    rw [declared] at h
    refine ⟨between, rfl, ?_⟩
    have eq := Except.ok.inj h
    simp only [List.contains_iff_mem] at eq
    split at eq
    · next listed => exact Or.inl ⟨listed, eq.symm⟩
    · next unlisted => exact Or.inr ⟨unlisted, eq.symm⟩

theorem attempt_error_iff {d : Declaration} : table.attempt d = .error found ↔
    table.types.get? d.name = some found ∧ found ≠ d.type := by
  rw [← declare_error_iff, attempt]
  by_cases parameter : d.parameter = true
  · rw [if_pos parameter, declareParameter]
    cases table.declare d.name d.type <;> simp [Except.map]
  · rw [if_neg parameter]

theorem declare_type (h : table.declare name type = .ok table') : table'.types.get? name = some type := by
  rcases declare_cases h with ⟨known, rfl⟩ | ⟨_, rfl⟩
  · exact known
  · rw [Dictionary.get?_insert, if_pos rfl]

theorem Keeps.declare (h : table.declare name type = .ok table') : table.Keeps table' := by
  rcases declare_cases h with ⟨_, rfl⟩ | ⟨unknown, rfl⟩
  · exact .refl _
  · intro other found known
    rw [Dictionary.get?_insert, if_neg, known]
    rintro rfl
    exact absurd (unknown.symm.trans known) nofun

theorem Keeps.declareParameter (h : table.declareParameter name type = .ok table') : table.Keeps table' := by
  obtain ⟨between, declared, ⟨_, rfl⟩ | ⟨_, rfl⟩⟩ := declareParameter_cases h
  · exact .declare declared
  · have keeps := Keeps.declare declared
    exact keeps

theorem Consistent.mem_iff (consistent : table.Consistent) (name : Text) :
    name ∈ table.names ↔ (table.types.get? name).isSome = true := by
  rw [consistent.names, Dictionary.mem_keys_iff]

theorem Consistent.declare (consistent : table.Consistent) (h : table.declare name type = .ok table') :
    table'.Consistent := by
  have keeps := Keeps.declare h
  rcases declare_cases h with ⟨_, rfl⟩ | ⟨unknown, rfl⟩
  · exact consistent
  · have names : table.names.insert name = (table.types.insert name type).keys := by
      rw [Dictionary.keys_insert, consistent.names]
    refine ⟨names, consistent.distinct, ?_, ?_⟩
    · intro other listed
      have known := (consistent.mem_iff other).mp (consistent.among other listed)
      obtain ⟨found, known⟩ := Option.isSome_iff_exists.mp known
      show other ∈ table.names.insert name
      rw [names, Dictionary.mem_keys_iff, keeps other found known]
      rfl
    · rw [consistent.typed]
      refine List.map_congr_left fun other listed => ?_
      have known := (consistent.mem_iff other).mp (consistent.among other listed)
      obtain ⟨found, known⟩ := Option.isSome_iff_exists.mp known
      rw [known, keeps other found known]

theorem Consistent.declareParameter (consistent : table.Consistent)
    (h : table.declareParameter name type = .ok table') : table'.Consistent := by
  obtain ⟨between, declared, ⟨_, rfl⟩ | ⟨unlisted, rfl⟩⟩ := declareParameter_cases h
  · exact consistent.declare declared
  · have known := declare_type declared
    have consistent := consistent.declare declared
    refine ⟨consistent.names, ?_, ?_, ?_⟩
    · exact List.nodup_append.mpr ⟨consistent.distinct, List.nodup_cons.mpr ⟨List.not_mem_nil, .nil⟩,
        fun a listed b last => by rw [List.mem_singleton.mp last]; rintro rfl; exact unlisted listed⟩
    · intro other listed
      rcases List.mem_append.mp listed with earlier | last
      · exact consistent.among other earlier
      · rw [List.mem_singleton.mp last]
        exact (consistent.mem_iff name).mpr (by rw [known]; rfl)
    · rw [List.map_append, List.map_append, consistent.typed, List.map_singleton, List.map_singleton, known]

theorem Consistent.declared (consistent : table.Consistent) (d : Declaration) :
    (table.declared d).Consistent ∧ table.Keeps (table.declared d) := by
  rw [SymbolTable.declared]
  split
  · next after ok =>
    rw [attempt] at ok
    split at ok
    · exact ⟨consistent.declareParameter ok, .declareParameter ok⟩
    · exact ⟨consistent.declare ok, .declare ok⟩
  · exact ⟨consistent, .refl table⟩

theorem Consistent.declaredAll (consistent : table.Consistent) (declarations : List Declaration) :
    (declarations.foldl SymbolTable.declared table).Consistent ∧
      table.Keeps (declarations.foldl SymbolTable.declared table) := by
  induction declarations generalizing table with
  | nil => exact ⟨consistent, .refl table⟩
  | cons d declarations ih =>
    obtain ⟨after, keeps⟩ := consistent.declared d
    obtain ⟨last, keeps'⟩ := ih after
    exact ⟨last, keeps.trans keeps'⟩

theorem consistent_empty : ({} : SymbolTable).Consistent :=
  ⟨rfl, .nil, fun _ listed => absurd listed List.not_mem_nil, rfl⟩

end SymbolTable

/-- All that a dialect does to the names that are known is to declare names. -/
def Dialect.DeclaresOnly (dialect : Dialect) : Prop :=
  ∀ directive table code table', dialect.statement directive table = .ok (code, table') →
    ∃ declarations : List Declaration, table' = declarations.foldl SymbolTable.declared table

end MarkupTemplates
