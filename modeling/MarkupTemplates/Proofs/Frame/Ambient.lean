import MarkupTemplates.Proofs.Frame.Stage

namespace MarkupTemplates

namespace Stage

/-- What can be done to the ambient frame. Whoever enters a frame is given a guard for it, and drops it later. -/
inductive Call where
  | current
  | push (template : Option Template) (parameters : Option Parameters) (output : Option Output)
  | pop
  | remove
  | enter (template : Option Template) (parameters : Option Parameters) (output : Option Output)
  | drop (guard : FrameId)

/-- A guard that is dropped does not ask whether its own frame is the ambient one. -/
def perform (s : Stage) : Call → Stage
  | .current => s.current.2
  | .push template parameters output => (s.push template parameters output).2
  | .pop => s.pop
  | .remove => s.clear
  | .enter template parameters output => (s.push template parameters output).2
  | .drop _ => s.pop

def performAll (s : Stage) (calls : List Call) : Stage := calls.foldl perform s

namespace Call

def opens : Call → Bool
  | push .. => true
  | enter .. => true
  | _ => false

def closes : Call → Bool
  | pop => true
  | drop _ => true
  | _ => false

def removes : Call → Bool
  | remove => true
  | _ => false

/-- As many frames are left as are opened. -/
def Even (calls : List Call) : Prop := calls.countP opens = calls.countP closes

instance (calls : List Call) : Decidable (Even calls) :=
  inferInstanceAs (Decidable (calls.countP opens = calls.countP closes))

/-- From a call that opens a frame to the first one that closes as many frames as have been opened since. What is
closed in between need not be what was opened last. -/
structure Visit (calls : List Call) : Prop where
  begins : ∃ first rest, calls = first :: rest ∧ first.opens = true
  even : Even calls
  first : ∀ n (inside : n < calls.length), calls[n].closes = true → Even (calls.take (n + 1)) → n + 1 = calls.length
  keeps : ∀ call ∈ calls, call.removes = false

/-- The ambient frame and those around it after a call, if there were these before, and `next` is the number of a
new frame. -/
def after (next : FrameId) (ids : List FrameId) : Call → List FrameId
  | current => if ids = [] then [next] else ids
  | push .. => next :: ids
  | pop => ids.tail
  | remove => []
  | enter .. => next :: ids
  | drop _ => ids.tail

end Call

/-- The frames from one of them outwards, each of which is enclosed by the next one. -/
inductive Lineage (s : Stage) : Option FrameId → List FrameId → Prop
  | nil : Lineage s none []
  | cons {id : FrameId} {ids : List FrameId} :
      id < s.frames.size → Lineage s (s.frame id).parent ids → Lineage s (some id) (id :: ids)

/-- The frame is the ambient one, or encloses it. -/
inductive Surrounds (s : Stage) : FrameId → Prop
  | ambient {id : FrameId} : s.ambient = some id → Surrounds s id
  | parent {id outer : FrameId} : Surrounds s id → (s.frame id).parent = some outer → Surrounds s outer

/-- All frames are as they were, and there may be new ones. -/
structure Grown (s s' : Stage) : Prop where
  size : s.frames.size ≤ s'.frames.size
  frames : ∀ id, id < s.frames.size → s'.frame id = s.frame id

variable {s s' s'' : Stage} {start : Option FrameId} {ids : List FrameId} {id : FrameId} {calls : List Call}

theorem Grown.refl (s : Stage) : s.Grown s := ⟨Nat.le_refl _, fun _ _ => rfl⟩

theorem Grown.trans (one : s.Grown s') (two : s'.Grown s'') : s.Grown s'' where
  size := Nat.le_trans one.size two.size
  frames id known := (two.frames id (Nat.lt_of_lt_of_le known one.size)).trans (one.frames id known)

theorem grown_add (s : Stage) (parent : Option FrameId) (template : Option Template)
    (parameters : Option Parameters) (output : Option Output) :
    s.Grown (s.add parent template parameters output).2 where
  size := Nat.le_of_lt (s.lt_size_add parent template parameters output)
  frames _ known := frame_add s parent template parameters output known

theorem grown_pop (s : Stage) : s.Grown s.pop := by
  unfold pop
  split
  · exact ⟨Nat.le_refl _, fun _ _ => rfl⟩
  · exact ⟨Nat.le_refl _, fun _ _ => rfl⟩

theorem grown_perform (s : Stage) (call : Call) : s.Grown (s.perform call) := by
  cases call with
  | current =>
    rw [perform, current]
    cases s.ambient with
    | some id => exact .refl s
    | none =>
      obtain ⟨size, frames⟩ := s.grown_add none none none none
      exact ⟨size, frames⟩
  | push template parameters output =>
    obtain ⟨size, frames⟩ := s.grown_add s.ambient template parameters output
    exact ⟨size, frames⟩
  | pop => exact s.grown_pop
  | remove => exact ⟨Nat.le_refl _, fun _ _ => rfl⟩
  | enter template parameters output =>
    obtain ⟨size, frames⟩ := s.grown_add s.ambient template parameters output
    exact ⟨size, frames⟩
  | drop _ => exact s.grown_pop

theorem grown_performAll (s : Stage) (calls : List Call) : s.Grown (s.performAll calls) := by
  induction calls generalizing s with
  | nil => exact .refl s
  | cons call calls ih => exact (s.grown_perform call).trans (ih _)

theorem performAll_append (s : Stage) (calls more : List Call) :
    s.performAll (calls ++ more) = (s.performAll calls).performAll more := List.foldl_append

namespace Lineage

theorem head?_eq (lineage : s.Lineage start ids) : ids.head? = start := by
  cases lineage with
  | nil => rfl
  | cons => rfl

theorem known (lineage : s.Lineage start ids) : ∀ id ∈ ids, id < s.frames.size := by
  induction lineage with
  | nil => exact fun _ member => absurd member List.not_mem_nil
  | cons known _ ih => exact List.forall_mem_cons.mpr ⟨known, ih⟩

theorem grown (lineage : s.Lineage start ids) (grown : s.Grown s') : s'.Lineage start ids := by
  induction lineage with
  | nil => exact .nil
  | @cons id ids known _ ih =>
    rw [← grown.frames id known] at ih
    exact .cons (Nat.lt_of_lt_of_le known grown.size) ih

theorem mem_parent (lineage : s.Lineage start ids) {outer : FrameId} (member : id ∈ ids)
    (parent : (s.frame id).parent = some outer) : outer ∈ ids := by
  induction lineage with
  | nil => exact absurd member List.not_mem_nil
  | @cons inner ids _ rest ih =>
    rcases List.mem_cons.mp member with rfl | member
    · have head := rest.head?_eq
      rw [parent] at head
      exact List.mem_cons_of_mem _ (List.mem_of_head? head)
    · exact List.mem_cons_of_mem _ (ih member)

theorem surrounds (lineage : s.Lineage start ids) (inner : ∀ id, start = some id → s.Surrounds id) :
    ∀ id ∈ ids, s.Surrounds id := by
  induction lineage with
  | nil => exact fun _ member => absurd member List.not_mem_nil
  | cons _ _ ih =>
    have here := inner _ rfl
    exact List.forall_mem_cons.mpr ⟨here, ih fun _ parent => .parent here parent⟩

end Lineage

theorem surrounds_iff (lineage : s.Lineage s.ambient ids) : s.Surrounds id ↔ id ∈ ids := by
  constructor
  · intro surrounds
    induction surrounds with
    | ambient here => exact List.mem_of_head? (lineage.head?_eq.trans here)
    | parent _ parent ih => exact lineage.mem_parent ih parent
  · exact lineage.surrounds (fun _ here => .ambient here) id

/-- A frame that was not there before is put inside the ambient one. -/
theorem lineage_push (lineage : s.Lineage s.ambient ids) (template : Option Template)
    (parameters : Option Parameters) (output : Option Output) :
    (s.push template parameters output).2.Lineage (s.push template parameters output).2.ambient
      (s.frames.size :: ids) := by
  obtain ⟨depth, own⟩ := s.frame_add_new s.ambient template parameters output
  have grown := s.grown_perform (.push template parameters output)
  refine .cons ?_ ?_
  · exact s.lt_size_add s.ambient template parameters output
  · rw [show ((s.push template parameters output).2.frame s.frames.size).parent = s.ambient from
      congrArg Frame.parent own]
    exact lineage.grown grown

theorem lineage_pop (lineage : s.Lineage s.ambient ids) : s.pop.Lineage s.pop.ambient ids.tail := by
  unfold pop
  cases ambient : s.ambient with
  | some id =>
    rw [ambient] at lineage
    cases lineage with
    | cons _ rest => exact rest.grown ⟨Nat.le_refl _, fun _ _ => rfl⟩
  | none =>
    rw [ambient] at lineage
    cases lineage
    show Lineage _ s.ambient []
    rw [ambient]
    exact .nil

/-- What one call makes of the ambient frame and those around it. -/
theorem lineage_perform (lineage : s.Lineage s.ambient ids) (call : Call) :
    (s.perform call).Lineage (s.perform call).ambient (call.after s.frames.size ids) := by
  cases call with
  | current =>
    rw [perform, current, Call.after]
    cases ambient : s.ambient with
    | some id =>
      have head := lineage.head?_eq
      rw [if_neg fun none => by rw [none, ambient] at head; cases head]
      exact lineage
    | none =>
      rw [ambient] at lineage
      cases lineage
      obtain ⟨depth, own⟩ := s.frame_add_new none none none none
      refine .cons ?_ ?_
      · exact s.lt_size_add none none none none
      · show Lineage _ ((s.add none none none none).2.frame s.frames.size).parent []
        rw [own]
        exact .nil
  | push template parameters output => exact lineage_push lineage template parameters output
  | pop => exact lineage_pop lineage
  | remove => exact .nil
  | enter template parameters output => exact lineage_push lineage template parameters output
  | drop _ => exact lineage_pop lineage

theorem exists_lineage (lineage : s.Lineage s.ambient ids) (calls : List Call) :
    ∃ ids', (s.performAll calls).Lineage (s.performAll calls).ambient ids' := by
  induction calls generalizing s ids with
  | nil => exact ⟨ids, lineage⟩
  | cons call calls ih => exact ih (lineage_perform lineage call)

/-- Only new frames come to be around. -/
theorem Call.mem_after {next : FrameId} {call : Call} (member : id ∈ call.after next ids) : id = next ∨ id ∈ ids := by
  cases call with
  | current =>
    rw [after] at member
    split at member
    · exact .inl (List.mem_singleton.mp member)
    · exact .inr member
  | push => exact List.mem_cons.mp member
  | pop => exact .inr (List.mem_of_mem_tail member)
  | remove => exact absurd member List.not_mem_nil
  | enter => exact List.mem_cons.mp member
  | drop => exact .inr (List.mem_of_mem_tail member)

/-- A frame that does not surround does not do so after any calls. -/
theorem not_surrounds_performAll (lineage : s.Lineage s.ambient ids) (known : id < s.frames.size)
    (outside : id ∉ ids) (calls : List Call) : ¬ (s.performAll calls).Surrounds id := by
  induction calls generalizing s ids with
  | nil => exact fun surrounds => outside ((surrounds_iff lineage).mp surrounds)
  | cons call calls ih =>
    refine ih (lineage_perform lineage call) (Nat.lt_of_lt_of_le known (s.grown_perform call).size) fun member => ?_
    rcases Call.mem_after member with rfl | member
    · exact Nat.lt_irrefl _ known
    · exact outside member

namespace Call.Visit

/-- On the way through a visit, frames that were opened by it are around the ambient one, as many as have not been
closed, and outside of them there are the same frames as before. -/
theorem through (visit : Visit calls) (lineage : s.Lineage s.ambient ids) (n : Nat) (within : n ≤ calls.length) :
    ∃ opened, (s.performAll (calls.take n)).Lineage (s.performAll (calls.take n)).ambient (opened ++ ids) ∧
      opened.length + (calls.take n).countP closes = (calls.take n).countP opens ∧
      (0 < n → n < calls.length → opened ≠ []) := by
  induction n with
  | zero => exact ⟨[], lineage, rfl, fun positive => absurd positive (Nat.lt_irrefl 0)⟩
  | succ n ih =>
    obtain ⟨opened, lineage, balance, some_open⟩ := ih (Nat.le_of_succ_le within)
    have step := lineage_perform lineage calls[n]
    have taken : calls.take (n + 1) = calls.take n ++ [calls[n]] := List.take_succ_eq_append_getElem within
    have kept := visit.keeps calls[n] (List.getElem_mem within)
    have first := visit.first n within
    have positive : calls[n].opens = false → 0 < n := by
      intro other
      obtain ⟨call, rest, rfl, opens⟩ := visit.begins
      cases n with
      | zero => exact absurd other (ne_true_of_eq_false · opens)
      | succ n => exact Nat.succ_pos n
    rw [taken, Even] at first
    rw [taken, performAll_append]
    simp only [List.countP_append, List.countP_singleton] at first ⊢
    generalize (s.performAll (calls.take n)).frames.size = next at step
    generalize calls[n] = call at step kept first positive
    cases call with
    | current =>
      have some_open := some_open (positive rfl) within
      rw [after, if_neg (List.append_ne_nil_of_left_ne_nil some_open ids)] at step
      exact ⟨opened, step, balance, fun _ _ => some_open⟩
    | push | enter =>
      refine ⟨next :: opened, step, ?_, fun _ _ => List.cons_ne_nil _ _⟩
      simp only [List.length_cons, opens, closes, if_true, Bool.false_eq_true, if_false]
      omega
    | pop | drop =>
      obtain ⟨last, opened, rfl⟩ := List.exists_cons_of_ne_nil (some_open (positive rfl) within)
      simp only [opens, closes, if_true, Bool.false_eq_true, if_false, List.length_cons] at first balance ⊢
      refine ⟨opened, step, by omega, fun _ more none => ?_⟩
      have all_closed : opened.length = 0 := List.length_eq_zero_iff.mpr none
      have stop := first trivial (by omega)
      omega
    | remove => cases kept

/-- After a visit the same frames are around as before. -/
theorem restores (visit : Visit calls) (lineage : s.Lineage s.ambient ids) :
    (s.performAll calls).Lineage (s.performAll calls).ambient ids := by
  obtain ⟨opened, lineage, balance, _⟩ := visit.through lineage calls.length (Nat.le_refl _)
  rw [List.take_length] at lineage balance
  have even : calls.countP opens = calls.countP closes := visit.even
  have none : opened = [] := List.length_eq_zero_iff.mp (by omega)
  rw [none] at lineage
  exact lineage

end Call.Visit

/-- The slot for the ambient frame keeps to the discipline of a stack, whatever is done from the time on when it is
empty. A visit that nothing removes frames from leaves it as it was, with the very same frame, if any. A frame that
does not surround what is rendered any more will never do so again. Where there is no ambient frame, a pop leaves
nothing but a line in the log. -/
theorem ambient_is_stack (empty : s.ambient = none) (before : List Call) :
    (∀ calls, Call.Visit calls →
      (s.performAll (before ++ calls)).ambient = (s.performAll before).ambient ∧
      (s.performAll before).Grown (s.performAll (before ++ calls))) ∧
    (∀ between further id, (s.performAll before).Surrounds id → ¬ (s.performAll (before ++ between)).Surrounds id →
      ¬ (s.performAll (before ++ between ++ further)).Surrounds id) ∧
    (∀ call, call.closes = true → (s.performAll before).ambient = none →
      s.performAll (before ++ [call]) = (s.performAll before).log .nothingToPop) := by
  have start : s.Lineage s.ambient [] := empty ▸ .nil
  obtain ⟨ids, lineage⟩ := exists_lineage start before
  refine ⟨fun calls visit => ?_, fun between further id inside outside => ?_, fun call closes none => ?_⟩
  · rw [performAll_append]
    refine ⟨?_, grown_performAll _ calls⟩
    exact (visit.restores lineage).head?_eq.symm.trans lineage.head?_eq
  · obtain ⟨ids', lineage'⟩ := exists_lineage lineage between
    rw [← performAll_append] at lineage'
    rw [performAll_append]
    have known := lineage.known id ((surrounds_iff lineage).mp inside)
    have grown := grown_performAll (s.performAll before) between
    rw [← performAll_append] at grown
    refine not_surrounds_performAll lineage' (Nat.lt_of_lt_of_le known grown.size) (fun member => ?_) further
    exact outside ((surrounds_iff lineage').mpr member)
  · rw [performAll_append]
    have popped : (s.performAll before).pop = (s.performAll before).log .nothingToPop := by rw [pop, none]
    cases call with
    | pop => exact popped
    | drop => exact popped
    | _ => cases closes

/-- Two frames are entered inside a root, the guard of the outer one is dropped first, and the root is removed at the
end. -/
theorem ambient_is_stack_with_guards :
    let s : Stage := {}
    let before : List Call := [.current]
    let visit : List Call := [.enter none none none, .enter none none none, .current, .drop 1, .drop 2]
    s.ambient = none ∧ Call.Visit visit ∧ (s.performAll before).ambient = some 0 ∧
      (s.performAll (before ++ visit)).ambient = some 0 ∧ (s.performAll before).Surrounds 0 ∧
      ¬ (s.performAll (before ++ [.remove])).Surrounds 0 ∧
      ¬ (s.performAll (before ++ [.remove] ++ visit)).Surrounds 0 ∧
      s.performAll [.pop] = s.log .nothingToPop := by
  intro s before visit
  have entered : Call.Visit visit := {
    begins := ⟨_, _, rfl, rfl⟩
    even := by decide
    first := by decide
    keeps := by decide }
  have inside : (s.performAll before).Surrounds 0 := .ambient rfl
  have outside : ¬ (s.performAll (before ++ [.remove])).Surrounds 0 := by
    have nothing : (s.performAll (before ++ [.remove])).Lineage none [] := .nil
    exact fun surrounds => List.not_mem_nil ((surrounds_iff nothing).mp surrounds)
  obtain ⟨visits, leaving, _⟩ := ambient_is_stack (s := s) rfl before
  obtain ⟨_, _, popping⟩ := ambient_is_stack (s := s) rfl []
  exact ⟨rfl, entered, rfl, (visits visit entered).1, inside, outside, leaving [.remove] visit 0 inside outside,
    popping .pop rfl rfl⟩

end Stage

end MarkupTemplates
