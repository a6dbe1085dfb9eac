import MarkupTemplates.Frame

namespace MarkupTemplates

section Arrays

variable {α : Type} {a : Array α} {i j : Nat}

theorem getD_modify (known : i < a.size) (f : α → α) (default : α) :
    (a.modify i f).getD j default = if i = j then f (a.getD i default) else a.getD j default := by
  simp only [Array.getD_eq_getD_getElem?, Array.getElem?_modify]
  by_cases same : i = j
  · subst same
    rw [if_pos rfl, if_pos rfl, Array.getElem?_eq_getElem known]
    rfl
  · rw [if_neg same, if_neg same]

theorem getD_push_size (x default : α) : (a.push x).getD a.size default = x := by
  simp only [Array.getD_eq_getD_getElem?, Array.getElem?_push_size, Option.getD_some]

theorem getD_push_of_ne (older : i ≠ a.size) (x default : α) : (a.push x).getD i default = a.getD i default := by
  simp only [Array.getD_eq_getD_getElem?, Array.getElem?_push, if_neg older]

end Arrays

/-- What is on the stage is the same as before, but for some frames and the log, and there may be new frames. -/
structure Stage.Spared (but : FrameId → Prop) (s s' : Stage) : Prop where
  size : s.frames.size ≤ s'.frames.size
  others : ∀ other, other < s.frames.size → ¬ but other → s'.frame other = s.frame other
  parent : ∀ other, other < s.frames.size → (s'.frame other).parent = (s.frame other).parent
  ambient : s'.ambient = s.ambient

/-- Nothing has been said in the log, either. -/
structure Stage.Kept (but : FrameId → Prop) (s s' : Stage) : Prop extends Spared but s s' where
  events : s'.events = s.events

namespace Stage

variable {id : FrameId} {s s' s'' : Stage} {but but' : FrameId → Prop}

namespace Spared

theorem refl (but : FrameId → Prop) (s : Stage) : s.Spared but s :=
  ⟨Nat.le_refl _, fun _ _ _ => rfl, fun _ _ => rfl, rfl⟩

theorem mono (spared : s.Spared but s') (weaker : ∀ other, but other → but' other) : s.Spared but' s' where
  size := spared.size
  others other known apart := spared.others other known fun within => apart (weaker other within)
  parent := spared.parent
  ambient := spared.ambient

theorem trans (one : s.Spared but s') (two : s'.Spared but s'') : s.Spared but s'' where
  size := Nat.le_trans one.size two.size
  others other known apart :=
    (two.others other (Nat.lt_of_lt_of_le known one.size) apart).trans (one.others other known apart)
  parent other known :=
    (two.parent other (Nat.lt_of_lt_of_le known one.size)).trans (one.parent other known)
  ambient := two.ambient.trans one.ambient

/-- What is done to a frame that was not there before leaves all frames as they were that were there. -/
theorem new (one : s.Spared but s') (two : s'.Spared (· = s.frames.size) s'') : s.Spared but s'' where
  size := Nat.le_trans one.size two.size
  others other known apart :=
    (two.others other (Nat.lt_of_lt_of_le known one.size) (Nat.ne_of_lt known)).trans (one.others other known apart)
  parent other known :=
    (two.parent other (Nat.lt_of_lt_of_le known one.size)).trans (one.parent other known)
  ambient := two.ambient.trans one.ambient

end Spared

namespace Kept

theorem refl (but : FrameId → Prop) (s : Stage) : s.Kept but s := ⟨.refl but s, rfl⟩

theorem mono (kept : s.Kept but s') (weaker : ∀ other, but other → but' other) : s.Kept but' s' :=
  ⟨kept.toSpared.mono weaker, kept.events⟩

theorem trans (one : s.Kept but s') (two : s'.Kept but s'') : s.Kept but s'' :=
  ⟨one.toSpared.trans two.toSpared, two.events.trans one.events⟩

theorem new (one : s.Kept but s') (two : s'.Kept (· = s.frames.size) s'') : s.Kept but s'' :=
  ⟨one.toSpared.new two.toSpared, two.events.trans one.events⟩

end Kept

theorem frame_update (s : Stage) {id : FrameId} (known : id < s.frames.size) (change : Frame → Frame)
    (other : FrameId) :
    (s.update id change).frame other = if id = other then change (s.frame id) else s.frame other :=
  getD_modify known change {}

theorem size_update (s : Stage) (id : FrameId) (change : Frame → Frame) :
    (s.update id change).frames.size = s.frames.size := Array.size_modify

theorem kept_update (known : id < s.frames.size) {change : Frame → Frame}
    (parent : (change (s.frame id)).parent = (s.frame id).parent) : s.Kept (· = id) (s.update id change) where
  size := Nat.le_of_eq (size_update s id change).symm
  others other _ apart := by rw [frame_update s known, if_neg (Ne.symm apart)]
  parent other _ := by
    rw [frame_update s known]
    by_cases same : id = other
    · rw [if_pos same, parent, same]
    · rw [if_neg same]
  ambient := rfl
  events := rfl

theorem frame_push (s : Stage) (f : Frame) :
    ({ s with frames := s.frames.push f } : Stage).frame s.frames.size = f := getD_push_size f {}

/-- A new frame is the last one, and is as it is asked for. -/
theorem frame_add_new (s : Stage) (parent : Option FrameId) (template : Option Template)
    (parameters : Option Parameters) (output : Option Output) :
    ∃ depth, (s.add parent template parameters output).2.frame s.frames.size =
      { parent, depth, template, parameters, output } :=
  ⟨_, frame_push s _⟩

theorem size_add (s : Stage) (parent : Option FrameId) (template : Option Template)
    (parameters : Option Parameters) (output : Option Output) :
    (s.add parent template parameters output).2.frames.size = s.frames.size + 1 := Array.size_push _

theorem lt_size_add (s : Stage) (parent : Option FrameId) (template : Option Template)
    (parameters : Option Parameters) (output : Option Output) :
    s.frames.size < (s.add parent template parameters output).2.frames.size := by
  rw [size_add]
  exact Nat.lt_succ_self _

theorem frame_add_of_ne (s : Stage) (parent : Option FrameId) (template : Option Template)
    (parameters : Option Parameters) (output : Option Output) {other : FrameId} (older : other ≠ s.frames.size) :
    (s.add parent template parameters output).2.frame other = s.frame other :=
  getD_push_of_ne older _ {}

theorem frame_add (s : Stage) (parent : Option FrameId) (template : Option Template)
    (parameters : Option Parameters) (output : Option Output) {other : FrameId} (known : other < s.frames.size) :
    (s.add parent template parameters output).2.frame other = s.frame other :=
  s.frame_add_of_ne parent template parameters output (Nat.ne_of_lt known)

theorem kept_add (s : Stage) (parent : Option FrameId) (template : Option Template)
    (parameters : Option Parameters) (output : Option Output) (but : FrameId → Prop) :
    s.Kept but (s.add parent template parameters output).2 where
  size := Nat.le_of_lt (s.lt_size_add parent template parameters output)
  others other known _ := frame_add s parent template parameters output known
  parent other known := by rw [frame_add s parent template parameters output known]
  ambient := rfl
  events := rfl

end Stage

end MarkupTemplates
