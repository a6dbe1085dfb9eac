import MarkupTemplates.Proofs.Frame.Access

namespace MarkupTemplates

/-- Mappings are known by their number in order of creation, and so are views. -/
abbrev MappingId := Nat
abbrev ViewId := Nat

/-- A mapping that is only read, if there is one, and what is set above it. -/
structure View where
  given : Option MappingId := none
  locals : Parameters := []

/-- What a frame knows of its parameters: the mapping it was created with, and its view once there is one. -/
structure FrameCell where
  given : Option MappingId := none
  view : Option ViewId := none

/-- The parameters of frames where mappings are shared and views are made when they are first asked for. -/
structure Memory where
  mappings : Array Parameters := #[]
  views : Array View := #[]
  cells : Array FrameCell := #[]

namespace Memory

def mapping (m : Memory) (number : MappingId) : Parameters := m.mappings.getD number []

def view (m : Memory) (number : ViewId) : View := m.views.getD number {}

def cell (m : Memory) (id : FrameId) : FrameCell := m.cells.getD id {}

/-- A view is read and written as a frame is that owns its parameters. -/
def seen (m : Memory) (v : View) : Frame := { parameters := v.given.map m.mapping, locals := v.locals }

def shown (m : Memory) (id : FrameId) : Frame :=
  match (m.cell id).view with
  | some n => m.seen (m.view n)
  | none => m.seen { given := (m.cell id).given }

/-- The view of a frame. One that is asked for the first time is a new one. -/
def viewOf (m : Memory) (id : FrameId) : ViewId := (m.cell id).view.getD m.views.size

def withView (m : Memory) (id : FrameId) : Memory :=
  { m with
    views := m.views.push { given := (m.cell id).given }
    cells := m.cells.modify id ({ · with view := some m.views.size }) }

def opened (m : Memory) (id : FrameId) : Memory :=
  match (m.cell id).view with
  | some _ => m
  | none => m.withView id

def write (m : Memory) (n : ViewId) (change : Parameters → Parameters) : Memory :=
  { m with views := m.views.modify n fun v => { v with locals := change v.locals } }

def withMapping (m : Memory) (parameters : Parameters) : Memory :=
  { m with mappings := m.mappings.push parameters }

/-- Where nothing is set in a view, the snapshot is the mapping below it, and not a new one. -/
def snapshot (m : Memory) (n : ViewId) : MappingId × Memory :=
  match (m.view n).given, (m.view n).locals with
  | some number, [] => (number, m)
  | _, _ => (m.mappings.size, m.withMapping (m.seen (m.view n)).snapshot)

def through (m : Memory) (n : ViewId) : Access → Answer MappingId × Memory
  | .view => (.nothing, m)
  | .get key => (.value ((m.seen (m.view n)).get? key), m)
  | .contains key => (.found ((m.seen (m.view n)).contains key), m)
  | .insert key value => (.value ((m.view n).locals.get? key), m.write n (·.insert key value))
  | .remove key => (.value ((m.view n).locals.get? key), m.write n (·.erase key))
  | .keys => (.names (m.seen (m.view n)).keys, m)
  | .snapshot => (.mapping (m.snapshot n).1, (m.snapshot n).2)

/-- What an access finds, and what it leaves behind. -/
structure Reply where
  view : ViewId
  answer : Answer MappingId
  memory : Memory

def access (m : Memory) (id : FrameId) (access : Access) : Reply where
  view := m.viewOf id
  answer := ((m.opened id).through (m.viewOf id) access).1
  memory := ((m.opened id).through (m.viewOf id) access).2

def accessed (m : Memory) (accesses : Accesses) : Memory :=
  accesses.foldl (fun m (id, access) => (m.access id access).memory) m

/-- There are the mappings and the views that frames know of, and no two frames have a view in common. -/
structure Formed (m : Memory) : Prop where
  given : ∀ id number, (m.cell id).given = some number → number < m.mappings.size
  view : ∀ id n, (m.cell id).view = some n → n < m.views.size ∧ (m.view n).given = (m.cell id).given
  apart : ∀ id id' n, (m.cell id).view = some n → (m.cell id').view = some n → id = id'

/-- No mapping and no view is given up or exchanged for another one, and no mapping changes. -/
structure Grows (m m' : Memory) : Prop where
  size : m.mappings.size ≤ m'.mappings.size
  mapping : ∀ number < m.mappings.size, m'.mapping number = m.mapping number
  given : ∀ id, (m'.cell id).given = (m.cell id).given
  view : ∀ id n, (m.cell id).view = some n → (m'.cell id).view = some n

variable {m m' m'' : Memory} {id other : FrameId} {n : ViewId}

namespace Grows

theorem refl (m : Memory) : m.Grows m := ⟨Nat.le_refl _, fun _ _ => rfl, fun _ => rfl, fun _ _ eq => eq⟩

theorem trans (one : m.Grows m') (two : m'.Grows m'') : m.Grows m'' where
  size := Nat.le_trans one.size two.size
  mapping number known := (two.mapping number (Nat.lt_of_lt_of_le known one.size)).trans (one.mapping number known)
  given id := (two.given id).trans (one.given id)
  view id n eq := two.view id n (one.view id n eq)

end Grows

/-- What a frame shows depends on its own view and on mappings that do not change. -/
theorem shown_eq (formed : m.Formed) (cell : m'.cell other = m.cell other)
    (view : ∀ n, (m.cell other).view = some n → m'.view n = m.view n)
    (mapping : ∀ number < m.mappings.size, m'.mapping number = m.mapping number) :
    m'.shown other = m.shown other := by
  have below : (m.cell other).given.map m'.mapping = (m.cell other).given.map m.mapping := by
    cases given : (m.cell other).given with
    | none => rfl
    | some number => exact congrArg some (mapping number (formed.given other number given))
  rw [shown, shown, cell]
  cases own : (m.cell other).view with
  | none => simp only [seen, below]
  | some n => simp only [seen, view n own, (formed.view other n own).2, below]

/-- One memory comes from another one by something that is done in one frame, so that the frame shows what `change`
makes of it. All other frames show what they have shown. -/
structure Changed (id : FrameId) (change : Frame → Frame) (m m' : Memory) : Prop extends Grows m m' where
  formed : m'.Formed
  cells : m'.cells.size = m.cells.size
  shown : ∀ other, m'.shown other = if id = other then change (m.shown id) else m.shown other

theorem Changed.refl (formed : m.Formed) (id : FrameId) : m.Changed id (fun f => f) m where
  toGrows := .refl m
  formed := formed
  cells := rfl
  shown other := by
    split
    · next same => rw [same]
    · rfl

theorem Changed.trans {change change' : Frame → Frame} (one : m.Changed id change m')
    (two : m'.Changed id change' m'') :
    m.Changed id (fun f => change' (change f)) m'' where
  toGrows := one.toGrows.trans two.toGrows
  formed := two.formed
  cells := two.cells.trans one.cells
  shown other := by
    rw [two.shown, one.shown, one.shown, if_pos rfl]
    split <;> rfl

theorem cell_withView (known : id < m.cells.size) (other : FrameId) : (m.withView id).cell other =
    if id = other then { m.cell id with view := some m.views.size } else m.cell other := getD_modify known _ {}

theorem view_withView (older : n ≠ m.views.size) : (m.withView id).view n = m.view n := getD_push_of_ne older _ {}

theorem view_withView_new (m : Memory) (id : FrameId) :
    (m.withView id).view m.views.size = { given := (m.cell id).given } := getD_push_size (a := m.views) _ {}

theorem changed_withView (formed : m.Formed) (known : id < m.cells.size) (unseen : (m.cell id).view = none) :
    m.Changed id (fun f => f) (m.withView id) := by
  have cell := @cell_withView m id known
  have given (other : FrameId) : ((m.withView id).cell other).given = (m.cell other).given := by
    rw [cell]
    split
    · next same => rw [same]
    · rfl
  -- a frame has its view from before, or the frame is the one that is accessed and the view is the new one
  have views {other : FrameId} {n : ViewId} (own : ((m.withView id).cell other).view = some n) :
      (id ≠ other ∧ n < m.views.size ∧ (m.cell other).view = some n) ∨ (id = other ∧ n = m.views.size) := by
    rw [cell] at own
    split at own
    · next same => exact .inr ⟨same, (Option.some.inj own).symm⟩
    · next apart => exact .inl ⟨apart, (formed.view other n own).1, own⟩
  have size : (m.withView id).views.size = m.views.size + 1 := Array.size_push _
  exact
    { size := Nat.le_refl _
      mapping := fun _ _ => rfl
      given := given
      view := fun other n own => by
        rw [cell, if_neg]
        · exact own
        · rintro rfl
          cases unseen.symm.trans own
      formed :=
        { given := fun other number below => formed.given other number (given other ▸ below)
          view := fun other n own => by
            rw [size, given]
            rcases views own with ⟨_, older, own⟩ | ⟨rfl, rfl⟩
            · rw [view_withView (Nat.ne_of_lt older)]
              exact ⟨Nat.lt_succ_of_lt older, (formed.view other n own).2⟩
            · rw [view_withView_new]
              exact ⟨Nat.lt_succ_self _, rfl⟩
          apart := fun one two n own own' => by
            rcases views own with ⟨_, older, own⟩ | ⟨rfl, new⟩
            · rcases views own' with ⟨_, _, own'⟩ | ⟨_, new⟩
              · exact formed.apart one two n own own'
              · exact absurd new (Nat.ne_of_lt older)
            · rcases views own' with ⟨_, older, _⟩ | ⟨same, _⟩
              · exact absurd new (Nat.ne_of_lt older)
              · exact same }
      cells := Array.size_modify
      shown := fun other => by
        by_cases same : id = other
        · subst same
          rw [if_pos rfl, shown, cell, if_pos rfl]
          simp only [view_withView_new]
          rw [shown, unseen]
          rfl
        · rw [if_neg same]
          refine shown_eq formed ?_ (fun n own => ?_) fun _ _ => rfl
          · rw [cell, if_neg same]
          · exact view_withView (Nat.ne_of_lt (formed.view other n own).1) }

theorem changed_opened (formed : m.Formed) (known : id < m.cells.size) : m.Changed id (fun f => f) (m.opened id) := by
  rw [opened]
  split
  · exact .refl formed id
  · next unseen => exact changed_withView formed known unseen

theorem view_cell_opened (known : id < m.cells.size) : ((m.opened id).cell id).view = some (m.viewOf id) := by
  rw [opened, viewOf]
  cases own : (m.cell id).view with
  | some n => exact own
  | none => exact congrArg FrameCell.view ((cell_withView known id).trans (if_pos rfl))

theorem changed_write (formed : m.Formed) (own : (m.cell id).view = some n) (change : Parameters → Parameters) :
    m.Changed id (fun f => { f with locals := change f.locals }) (m.write n change) := by
  have view (k : ViewId) : (m.write n change).view k =
      if n = k then { m.view n with locals := change (m.view n).locals } else m.view k :=
    getD_modify (formed.view id n own).1 _ {}
  have given (k : ViewId) : ((m.write n change).view k).given = (m.view k).given := by
    rw [view]
    split
    · next same => rw [same]
    · rfl
  exact
    { toGrows := ⟨Nat.le_refl _, fun _ _ => rfl, fun _ => rfl, fun _ _ own => own⟩
      formed :=
        { given := formed.given
          view := fun other k own => by
            rw [given, show (m.write n change).views.size = m.views.size from Array.size_modify]
            exact formed.view other k own
          apart := formed.apart }
      cells := rfl
      shown := fun other => by
        by_cases same : id = other
        · subst same
          have shown : (m.write n change).shown id = (m.write n change).seen ((m.write n change).view n) := by
            rw [shown, show (m.write n change).cell id = m.cell id from rfl, own]
          rw [if_pos rfl, shown, view, if_pos rfl, Memory.shown, own]
          rfl
        · rw [if_neg same]
          refine shown_eq formed rfl (fun k own' => ?_) fun _ _ => rfl
          rw [view, if_neg]
          rintro rfl
          exact same (formed.apart id other n own own') }

theorem mapping_withMapping {number : MappingId} (known : number < m.mappings.size) (parameters : Parameters) :
    (m.withMapping parameters).mapping number = m.mapping number := getD_push_of_ne (Nat.ne_of_lt known) _ []

theorem changed_withMapping (formed : m.Formed) (id : FrameId) (parameters : Parameters) :
    m.Changed id (fun f => f) (m.withMapping parameters) := by
  have size : m.mappings.size ≤ (m.withMapping parameters).mappings.size :=
    Nat.le_trans (Nat.le_succ _) (Nat.le_of_eq (Array.size_push _).symm)
  have mapping : ∀ number < m.mappings.size, (m.withMapping parameters).mapping number = m.mapping number :=
    fun _ known => mapping_withMapping known parameters
  have same (other : FrameId) : (m.withMapping parameters).shown other = m.shown other :=
    shown_eq formed rfl (fun _ _ => rfl) mapping
  exact
    { toGrows := ⟨size, mapping, fun _ => rfl, fun _ _ own => own⟩
      formed := ⟨fun other number below => Nat.lt_of_lt_of_le (formed.given other number below) size, formed.view,
        formed.apart⟩
      cells := rfl
      shown := fun other => by rw [same, ((Changed.refl formed id).shown other).symm] }

theorem changed_through (formed : m.Formed) (own : (m.cell id).view = some n) (access : Access) :
    m.Changed id access.applied (m.through n access).2 := by
  cases access with
  | insert key value => exact changed_write formed own (·.insert key value)
  | remove key => exact changed_write formed own (·.erase key)
  | snapshot =>
    rw [through, snapshot]
    split
    · exact .refl formed id
    · exact changed_withMapping formed id _
  | _ => exact .refl formed id

theorem mapping_snapshot (formed : m.Formed) (own : (m.cell id).view = some n) (grows : (m.snapshot n).2.Grows m') :
    m'.mapping (m.snapshot n).1 = (m.seen (m.view n)).snapshot := by
  revert grows
  rw [snapshot]
  split
  · next number below clear =>
    intro grows
    have known : number < m.mappings.size := formed.given id number ((formed.view id n own).2 ▸ below)
    rw [grows.mapping number known, Frame.snapshot, Frame.given, seen, below, clear]
    rfl
  · intro grows
    have size : (m.withMapping (m.seen (m.view n)).snapshot).mappings.size = m.mappings.size + 1 := Array.size_push _
    rw [grows.mapping _ (size ▸ Nat.lt_succ_self _)]
    exact getD_push_size (a := m.mappings) _ []

/-- What an access to a view gives back, when it is looked at now or later. -/
theorem answer_through (formed : m.Formed) (own : (m.cell id).view = some n) (access : Access)
    (grows : (m.through n access).2.Grows m') : (m.through n access).1.map m'.mapping = access.answer (m.shown id) := by
  have shown : m.shown id = m.seen (m.view n) := by rw [shown, own]
  rw [shown]
  cases access with
  | snapshot =>
    exact congrArg Answer.mapping (mapping_snapshot formed own grows)
  | _ => rfl

theorem changed_access (formed : m.Formed) (known : id < m.cells.size) (access : Access) :
    m.Changed id access.applied (m.access id access).memory :=
  have opened := changed_opened formed known
  opened.trans (changed_through opened.formed (view_cell_opened known) access)

theorem answer_access (formed : m.Formed) (known : id < m.cells.size) (access : Access)
    (grows : (m.access id access).memory.Grows m') :
    (m.access id access).answer.map m'.mapping = access.answer (m.shown id) := by
  have opened := changed_opened formed known
  have same : (m.opened id).shown id = m.shown id := (opened.shown id).trans (if_pos rfl)
  rw [← same]
  exact answer_through opened.formed (view_cell_opened known) access grows

theorem view_cell_access (formed : m.Formed) (known : id < m.cells.size) (access : Access) :
    ((m.access id access).memory.cell id).view = some (m.access id access).view :=
  have opened := changed_opened formed known
  (changed_through opened.formed (view_cell_opened known) access).view id _ (view_cell_opened known)

theorem viewOf_eq_iff (formed : m.Formed) (own : (m.cell id).view = some n) : m.viewOf other = n ↔ other = id := by
  constructor
  · intro same
    rw [viewOf] at same
    cases found : (m.cell other).view with
    | some k =>
      rw [found, Option.getD_some] at same
      exact formed.apart other id n (same ▸ found) own
    | none =>
      -- a new view is none of those that are known
      rw [found, Option.getD_none] at same
      exact absurd (formed.view id n own).1 (same ▸ Nat.lt_irrefl _)
  · rintro rfl
    rw [viewOf, own, Option.getD_some]

end Memory

/-- The parameters of the frame, given and set, and nothing else of it. -/
def Frame.bare (f : Frame) : Frame := { parameters := f.parameters, locals := f.locals }

theorem Access.answer_bare (access : Access) (f : Frame) : access.answer f.bare = access.answer f := by
  cases access <;> rfl

theorem Access.applied_bare (access : Access) (f : Frame) : access.applied f.bare = (access.applied f).bare := by
  cases access <;> rfl

namespace Memory

/-- What the frames on the stage own, the frames of the memory show. -/
structure Backs (m : Memory) (s : Stage) : Prop extends Formed m where
  size : m.cells.size = s.frames.size
  shown : ∀ id, m.shown id = (s.frame id).bare

variable {m : Memory} {s : Stage} {id : FrameId}

theorem Backs.access (backs : m.Backs s) (known : id < s.frames.size) (access : Access) :
    (m.access id access).memory.Backs (s.access id access).2 := by
  have changed := changed_access backs.toFormed (backs.size.symm ▸ known) access
  refine ⟨changed.formed, ?_, fun other => ?_⟩
  · rw [changed.cells, Stage.size_access, backs.size]
  · rw [changed.shown, s.frame_access known, backs.shown, backs.shown]
    split
    · exact access.applied_bare _
    · rfl

/-- All accesses, one after the other, change no mapping, and every frame keeps its view. -/
theorem Backs.accessed (backs : m.Backs s) {accesses : Accesses}
    (known : ∀ access ∈ accesses, access.1 < s.frames.size) :
    (m.accessed accesses).Backs (s.accessed accesses) ∧ m.Grows (m.accessed accesses) := by
  induction accesses generalizing m s with
  | nil => exact ⟨backs, .refl m⟩
  | cons first accesses ih =>
    obtain ⟨known, rest⟩ := List.forall_mem_cons.mp known
    obtain ⟨backs', grows⟩ := ih (backs.access known first.2) fun later member => by
      rw [Stage.size_access]
      exact rest later member
    exact ⟨backs', (changed_access backs.toFormed (backs.size.symm ▸ known) first.2).toGrows.trans grows⟩

theorem snapshot_shared_iff (formed : m.Formed) {n : ViewId} (own : (m.cell id).view = some n) :
    (m.cell id).given = some (m.snapshot n).1 ↔ (m.shown id).isUntouched = true := by
  have shown : m.shown id = m.seen (m.view n) := by rw [shown, own]
  rw [shown, ← (formed.view id n own).2, snapshot, Frame.isUntouched, seen, Option.isSome_map]
  split
  · next number below clear => simp [below, clear]
  · next other =>
    constructor
    · intro below
      exact absurd (formed.given id _ ((formed.view id n own).2 ▸ below)) (Nat.lt_irrefl _)
    · intro untouched
      obtain ⟨some_number, clear⟩ := Bool.and_eq_true _ _ ▸ untouched
      obtain ⟨number, below⟩ := Option.isSome_iff_exists.mp some_number
      exact (other number below (List.isEmpty_iff.mp clear)).elim

/-- A snapshot of a frame is the mapping that the frame was created with as long as the frame is untouched. -/
theorem Backs.shared_iff (backs : m.Backs s) (known : id < s.frames.size) {number : MappingId}
    (taken : (m.access id .snapshot).answer = .mapping number) :
    (m.cell id).given = some number ↔ (s.frame id).isUntouched = true := by
  have known : id < m.cells.size := backs.size.symm ▸ known
  have opened := changed_opened backs.toFormed known
  have shown : (m.opened id).shown id = (s.frame id).bare := by rw [opened.shown, if_pos rfl, backs.shown]
  have shared := snapshot_shared_iff opened.formed (view_cell_opened known)
  rw [opened.given, shown] at shared
  rw [← Answer.mapping.inj taken]
  exact shared

/-- Whatever has been done to any frames before and is done to any frames later: what is set in a frame, laid over
the parameters that it was created with, is one mapping that all accesses show, and a snapshot goes on to show it. It
is what the stage shows, where no frame shares anything with another one. A frame has one view and no other frame has
it. Other frames do not change, and no mapping does. -/
theorem views_show_own_parameters (backs : m.Backs s) (ordered : ∀ id, (s.frame id).Ordered) {before after : Accesses}
    (known_before : ∀ access ∈ before, access.1 < s.frames.size)
    (known_after : ∀ access ∈ after, access.1 < s.frames.size) (known : id < s.frames.size) (access : Access) :
    let given := (s.frame id).given
    let set := before.surviving id (s.frame id).locals.get?
    let start := m.accessed before
    let reply := start.access id access
    let stop := reply.memory.accessed after
    let answer := reply.answer.map stop.mapping
    access.Told set (fun key => (set key).or (given.get? key)) answer ∧
      (∀ key, access = .remove key → (reply.memory.shown id).get? key = given.get? key) ∧
      answer = ((s.accessed before).access id access).1 ∧
      (∀ other, other < s.frames.size → ∀ next, (stop.access other next).view = reply.view ↔ other = id) ∧
      (∀ other, other ≠ id → reply.memory.shown other = start.shown other) ∧
      ∀ number, number < m.mappings.size → stop.mapping number = m.mapping number := by
  intro given set start reply stop answer
  obtain ⟨started, earlier⟩ := backs.accessed known_before
  have size : (s.accessed before).frames.size = s.frames.size := Stage.size_accessed before
  have here : id < (s.accessed before).frames.size := size.symm ▸ known
  have cell : id < start.cells.size := started.size.symm ▸ here
  have changed : start.Changed id access.applied reply.memory := changed_access started.toFormed cell access
  obtain ⟨stopped, later⟩ := (started.access here access).accessed fun next member => by
    rw [Stage.size_access, size]
    exact known_after next member
  have holds : (s.accessed before).Holds id (s.frame id).parameters set :=
    Stage.Holds.accessed ⟨rfl, ordered id, fun _ => rfl⟩ known_before
  have unchanged : ((s.accessed before).frame id).given = given := congrArg (·.getD []) holds.parameters
  have answered : answer = access.answer ((s.accessed before).frame id) := by
    rw [← access.answer_bare, ← started.shown id]
    exact answer_access started.toFormed cell access later
  have own : (stop.cell id).view = some reply.view :=
    later.view id _ (view_cell_access started.toFormed cell access)
  refine ⟨?_, ?_, answered, fun other _ next => viewOf_eq_iff stopped.toFormed own, fun other apart => ?_, ?_⟩
  · rw [answered, ← unchanged]
    exact Frame.told holds.ordered holds.locals access
  · rintro key rfl
    rw [changed.shown, if_pos rfl, started.shown, ← unchanged]
    exact Frame.get?_remove _ key
  · exact (changed.shown other).trans (if_neg (Ne.symm apart))
  · exact (earlier.trans (changed.toGrows.trans later)).mapping

/-- Two frames share a mapping. One of them hides an entry, and uncovers it again behind a snapshot. -/
theorem views_show_own_parameters_of_siblings :
    let shared : Parameters := [("a", .long 1), ("b", .long 2)]
    let sibling : Frame := { parent := some 0, depth := 1, parameters := some shared }
    let s : Stage := { frames := #[{}, sibling, sibling] }
    let m : Memory := { mappings := #[shared], cells := #[{}, { given := some 0 }, { given := some 0 }] }
    let before : Accesses := [(2, .snapshot), (1, .insert "a" (.long 10)), (2, .insert "c" (.long 3))]
    let after : Accesses := [(1, .remove "a"), (2, .remove "b"), (1, .snapshot)]
    let reply := (m.accessed before).access 1 .snapshot
    let stop := reply.memory.accessed after
    m.Backs s ∧ (∀ id, (s.frame id).Ordered) ∧
      reply.answer.map stop.mapping = .mapping [("a", .long 10), ("b", .long 2)] ∧
      (∀ next, (stop.access 1 next).view = reply.view) ∧ stop.mapping 0 = shared := by
  intro shared sibling s m before after reply stop
  have unseen (id : FrameId) : (m.cell id).view = none := match id with
    | 0 | 1 | 2 | _ + 3 => rfl
  have formed : m.Formed := by
    refine ⟨fun id number below => ?_, fun id n own => ?_, fun id id' n own => ?_⟩
    · match id with
      | 0 | _ + 3 => cases below
      | 1 | 2 => cases below; exact Nat.zero_lt_one
    · cases (unseen id).symm.trans own
    · cases (unseen id).symm.trans own
  have backs : m.Backs s := ⟨formed, rfl, fun id => match id with | 0 | 1 | 2 | _ + 3 => rfl⟩
  have names : Dictionary.Ordered shared := Dictionary.ordered_iff.mpr (by decide)
  have ordered (id : FrameId) : (s.frame id).Ordered := match id with
    | 0 | _ + 3 => ⟨List.Pairwise.nil, List.Pairwise.nil⟩
    | 1 | 2 => ⟨names, List.Pairwise.nil⟩
  obtain ⟨_, _, answered, views, _, kept⟩ :=
    @views_show_own_parameters m s 1 backs ordered before after (by decide) (by decide) (by decide) .snapshot
  exact ⟨backs, ordered, answered, fun next => (views 1 (by decide) next).mpr rfl, kept 0 Nat.zero_lt_one⟩

end Memory

end MarkupTemplates
