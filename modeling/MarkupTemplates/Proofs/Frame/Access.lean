import MarkupTemplates.Proofs.Dictionary
import MarkupTemplates.Proofs.Frame.Stage

namespace MarkupTemplates

/-- What can be asked of the parameters of a frame, and what can be done to them. -/
inductive Access where
  | view
  | get (key : Text)
  | contains (key : Text)
  | insert (key : Text) (value : TemplateValue)
  | remove (key : Text)
  | keys
  | snapshot

/-- What an access gives back. What is set or removed gives back what was set before. -/
inductive Answer (Mapping : Type) where
  | nothing
  | value (v : Option TemplateValue)
  | found (b : Bool)
  | names (list : List Text)
  | mapping (m : Mapping)

/-- Accesses to frames, one after the other. -/
abbrev Accesses := List (FrameId × Access)

def Answer.map {α β : Type} (f : α → β) : Answer α → Answer β
  | nothing => nothing
  | value v => value v
  | found b => found b
  | names list => .names list
  | mapping m => mapping (f m)

namespace Access

def answer (f : Frame) : Access → Answer Parameters
  | view => .nothing
  | get key => .value (f.get? key)
  | contains key => .found (f.contains key)
  | insert key _ => .value (f.locals.get? key)
  | remove key => .value (f.locals.get? key)
  | keys => .names f.keys
  | snapshot => .mapping f.snapshot

def applied (f : Frame) : Access → Frame
  | insert key value => f.insert key value
  | remove key => f.remove key
  | _ => f

/-- What is set in a frame under a name when the frame has been accessed. -/
def leaves (key : Text) (set : Option TemplateValue) : Access → Option TemplateValue
  | insert k value => if k = key then some value else set
  | remove k => if k = key then none else set
  | _ => set

/-- What an access gives back where `set` is set in the frame and all that can be seen is `merged`. -/
def Told (set merged : Text → Option TemplateValue) : Access → Answer Parameters → Prop
  | view, answer => answer = .nothing
  | get key, answer => answer = .value (merged key)
  | contains key, answer => answer = .found (merged key).isSome
  | insert key _, answer => answer = .value (set key)
  | remove key, answer => answer = .value (set key)
  | keys, answer => ∃ names, answer = .names names ∧ names.Pairwise (· < ·) ∧
      ∀ key, key ∈ names ↔ (merged key).isSome = true
  | snapshot, answer => ∃ parameters, answer = .mapping parameters ∧ parameters.Ordered ∧
      ∀ key, parameters.get? key = merged key

end Access

/-- What is set in the frame under a name after the accesses. Only those to the frame itself count. -/
def Accesses.surviving (accesses : Accesses) (id : FrameId) (set : Text → Option TemplateValue) (key : Text) :
    Option TemplateValue :=
  accesses.foldl (fun set (frame, access) => if frame = id then access.leaves key set else set) (set key)

namespace Stage

def access (s : Stage) (id : FrameId) (access : Access) : Answer Parameters × Stage :=
  (access.answer (s.frame id), s.update id access.applied)

def accessed (s : Stage) (accesses : Accesses) : Stage :=
  accesses.foldl (fun s (id, access) => (s.access id access).2) s

end Stage

namespace Frame

/-- Both what was given to the frame and what was set in it have their names in order, each once. -/
structure Ordered (f : Frame) : Prop where
  given : f.given.Ordered
  locals : f.locals.Ordered

variable {f : Frame}

theorem get?_applied (access : Access) (key : Text) :
    (access.applied f).locals.get? key = access.leaves key (f.locals.get? key) := by
  cases access with
  | insert k value => exact Dictionary.get?_insert f.locals k key value
  | remove k => exact Dictionary.get?_erase f.locals k key
  | _ => rfl

theorem parameters_applied (access : Access) : (access.applied f).parameters = f.parameters := by
  cases access <;> rfl

/-- What is removed uncovers the parameter of its name. -/
theorem get?_remove (f : Frame) (key : Text) : (f.remove key).get? key = f.given.get? key := by
  rw [get?, remove, Dictionary.get?_erase, if_pos rfl, Option.none_or]
  rfl

theorem Ordered.applied (ordered : f.Ordered) (access : Access) : (access.applied f).Ordered := by
  refine ⟨?_, ?_⟩
  · rw [Frame.given, parameters_applied]
    exact ordered.given
  · cases access with
    | insert k value => exact ordered.locals.insert k value
    | remove k => exact ordered.locals.erase k
    | _ => exact ordered.locals

theorem mem_keys_iff {key : Text} : key ∈ f.keys ↔ (f.get? key).isSome = true := by
  rw [keys, NameSet.mem_foldl_insert_iff, NameSet.mem_foldl_insert_iff, Dictionary.mem_keys_iff, Dictionary.mem_keys_iff,
    get?, Option.isSome_or, Bool.or_eq_true, or_comm]
  simp

/-- All accesses show one and the same mapping. -/
theorem told (ordered : f.Ordered) {set : Text → Option TemplateValue} (own : ∀ key, f.locals.get? key = set key)
    (access : Access) : access.Told set (fun key => (set key).or (f.given.get? key)) (access.answer f) := by
  have visible (key : Text) : f.get? key = (set key).or (f.given.get? key) := by rw [get?, own]
  cases access with
  | view => rfl
  | get key => exact congrArg Answer.value (visible key)
  | contains key =>
    refine congrArg Answer.found ?_
    rw [contains, Dictionary.contains, Dictionary.contains, own, Option.isSome_or]
  | insert key value => exact congrArg Answer.value (own key)
  | remove key => exact congrArg Answer.value (own key)
  | keys =>
    refine ⟨f.keys, rfl, ?_, fun key => ?_⟩
    · exact NameSet.pairwise_foldl_insert (NameSet.pairwise_foldl_insert List.Pairwise.nil _) _
    · rw [mem_keys_iff, visible]
  | snapshot =>
    refine ⟨f.snapshot, rfl, ordered.given.overlay _, fun key => ?_⟩
    rw [snapshot, Dictionary.get?_overlay _ ordered.locals, own]

end Frame

namespace Stage

variable {s : Stage} {id : FrameId}

/-- An access to a frame is done to that frame alone. -/
theorem frame_access (known : id < s.frames.size) (access : Access) (other : FrameId) :
    (s.access id access).2.frame other = if id = other then access.applied (s.frame id) else s.frame other :=
  s.frame_update known access.applied other

theorem size_access (access : Access) : (s.access id access).2.frames.size = s.frames.size :=
  s.size_update id access.applied

theorem size_accessed (accesses : Accesses) : (s.accessed accesses).frames.size = s.frames.size := by
  induction accesses generalizing s with
  | nil => rfl
  | cons first accesses ih => exact ih.trans (size_access first.2)

/-- What accesses leave behind in a frame. -/
structure Holds (s : Stage) (id : FrameId) (given : Option Parameters) (set : Text → Option TemplateValue) : Prop where
  parameters : (s.frame id).parameters = given
  ordered : (s.frame id).Ordered
  locals : ∀ key, (s.frame id).locals.get? key = set key

theorem Holds.access {given : Option Parameters} {set : Text → Option TemplateValue} (holds : s.Holds id given set)
    {frame : FrameId} (known : frame < s.frames.size) (access : Access) :
    (s.access frame access).2.Holds id given fun key => if frame = id then access.leaves key (set key) else set key := by
  have applied := s.frame_access known access id
  by_cases same : frame = id
  · subst same
    rw [if_pos rfl] at applied
    refine ⟨?_, ?_, fun key => ?_⟩
    · rw [applied, Frame.parameters_applied, holds.parameters]
    · rw [applied]
      exact holds.ordered.applied access
    · rw [applied, Frame.get?_applied, holds.locals, if_pos rfl]
  · rw [if_neg same] at applied
    refine ⟨?_, ?_, fun key => ?_⟩
    · rw [applied, holds.parameters]
    · rw [applied]
      exact holds.ordered
    · rw [applied, holds.locals, if_neg same]

theorem Holds.accessed {given : Option Parameters} {set : Text → Option TemplateValue} (holds : s.Holds id given set)
    {accesses : Accesses} (known : ∀ access ∈ accesses, access.1 < s.frames.size) :
    (s.accessed accesses).Holds id given (accesses.surviving id set) := by
  induction accesses generalizing s set with
  | nil => exact holds
  | cons first accesses ih =>
    obtain ⟨known, rest⟩ := List.forall_mem_cons.mp known
    refine ih (holds.access known first.2) fun later member => ?_
    rw [size_access]
    exact rest later member

end Stage

end MarkupTemplates
