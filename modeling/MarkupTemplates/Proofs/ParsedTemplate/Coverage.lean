import MarkupTemplates.Proofs.Edit.Rewrites
import MarkupTemplates.Proofs.ParsedTemplate.Layout

namespace MarkupTemplates

theorem ok_of_bind {ε α β : Type} {x : Except ε α} {f : α → Except ε β} {b : β}
    (h : x >>= f = .ok b) : ∃ a, x = .ok a ∧ f a = .ok b := by
  cases x with
  | error e => simp [bind, Except.bind] at h
  | ok a => exact ⟨a, rfl, h⟩

theorem ok_of_map {ε α β : Type} {x : Except ε α} {f : α → β} {b : β} (h : x.map f = .ok b) :
    ∃ a, x = .ok a ∧ f a = b := by
  cases x with
  | error e => simp [Except.map] at h
  | ok a => exact ⟨a, rfl, Except.ok.inj h⟩

variable {Compiled : Type} {job : Job Compiled} {w w' w'' : Walk Compiled}

/-- From one state of the walk to the other, the parts have become text, wherever it was put. A macro
comment that gave way to another is in the log. -/
structure Writes (job : Job Compiled) (w w' : Walk Compiled) (parts : List Part) (text : Text) : Prop where
  written : written? job.dialect job.resource.source w.symbols parts = some (text, w'.symbols)
  counted : w'.directives = w.directives + parts.countP Part.isDirective
  logged : ∃ more, w'.events = w.events ++ more ∧ ∀ comment, .dropped comment ∈ parts →
    ∃ previous value, .superseded job.resource.name previous value ∈ more

theorem Writes.edited {parts : List Part} {text : Text} (writes : Writes job w w' parts text)
    (before after : Edits) :
    Writes job { w with edits := before } { w' with edits := after } parts text :=
  ⟨writes.written, writes.counted, writes.logged⟩

theorem Writes.nil : Writes job w w [] [] :=
  ⟨rfl, rfl, [], (List.append_nil _).symm, fun _ member => absurd member List.not_mem_nil⟩

theorem Writes.kept (span : Span) : Writes job w w [.kept span] (job.resource.source.at span) :=
  ⟨written?_singleton .., rfl, [], (List.append_nil _).symm, fun _ member => by simp at member⟩

theorem Writes.ending (length : Nat) (name : Text) :
    Writes job w w.counted [.ending length name] (marker length (job.dialect.ending name)) :=
  ⟨written?_singleton .., rfl, [], (List.append_nil _).symm, fun _ member => by simp at member⟩

theorem Writes.trans {first second : List Part} {s t : Text} (one : Writes job w w' first s)
    (two : Writes job w' w'' second t) : Writes job w w'' (first ++ second) (s ++ t) := by
  obtain ⟨more, events, dropped⟩ := one.logged
  obtain ⟨more', events', dropped'⟩ := two.logged
  refine ⟨written?_append one.written two.written, ?_, more ++ more', ?_, ?_⟩
  · rw [two.counted, one.counted, List.countP_append, Nat.add_assoc]
  · rw [events', events, List.append_assoc]
  · intro comment member
    rcases List.mem_append.mp member with member | member
    · obtain ⟨previous, value, logged⟩ := dropped comment member
      exact ⟨previous, value, List.mem_append_left _ logged⟩
    · obtain ⟨previous, value, logged⟩ := dropped' comment member
      exact ⟨previous, value, List.mem_append_right _ logged⟩

/-- The walk has come past a stretch of the source: the changes to it put there what is written for
the parts. -/
def Covers (job : Job Compiled) (w w' : Walk Compiled) (lo hi : Nat) (parts : List Part) : Prop :=
  ∃ made text, w'.edits = w.edits ++ made ∧ made.Rewrites job.resource.source lo hi text ∧
    Writes job w w' parts text

theorem Covers.trans {lo mid hi : Nat} {first second : List Part} (one : Covers job w w' lo mid first)
    (two : Covers job w' w'' mid hi second) : Covers job w w'' lo hi (first ++ second) := by
  obtain ⟨made, text, edits, rewrites, writes⟩ := one
  obtain ⟨made', text', edits', rewrites', writes'⟩ := two
  refine ⟨made ++ made', text ++ text', ?_, rewrites.append rewrites', writes.trans writes'⟩
  rw [edits', edits, Edits.append_assoc]

theorem Covers.kept {lo hi : Nat} (atLo : job.resource.source.IsBoundary lo)
    (atHi : job.resource.source.IsBoundary hi) (forward : lo ≤ hi) :
    Covers job w w lo hi [.kept ⟨lo, hi⟩] :=
  ⟨{}, _, (Edits.append_empty _).symm, .kept atLo atHi forward, .kept _⟩

namespace Walk

/-- A statement counts, and declares what the dialect says. -/
theorem statement_done {directive : Directive} {code : Text} (h : w.statement job directive = .ok (code, w')) :
    ∃ symbols, job.dialect.statement directive w.symbols = .ok (code, symbols) ∧ w' = { w.counted with symbols } := by
  unfold statement at h
  split at h
  · next coded =>
    obtain ⟨rfl, rfl⟩ := Prod.mk.inj (Except.ok.inj h)
    exact ⟨_, coded, rfl⟩
  · simp [fail] at h

/-- A macro is registered if its name is free, and its body can be parsed and compiled. Then it counts, and the
events of the body come before its own. -/
theorem register_done {head : MacroHead} {body : MacroBody} {span : Span} {code : Text}
    (h : w.register job head body span = .ok (code, w')) :
    ∃ symbols events template compiled, w.symbols.declare head.name templateType = .ok symbols ∧
      job.parseBody (job.resource.extract head.name body.text) = (events, .ok template) ∧
      job.compiler.compile template = .ok compiled ∧ code = job.dialect.binding head.name ∧
      w' = { w.counted with
        symbols
        events := w.events ++ events ++ [.extracted job.resource.name head.name head.parameters]
        macros := w.macros.insert head.name
          ⟨head.name, head.parameters, body.declaration, span, template, compiled⟩ } := by
  unfold register at h
  split at h
  · simp [fail] at h
  · next declared =>
    simp only at h
    split at h
    · simp [fail] at h
    · next parsed =>
      split at h
      · simp [fail] at h
      · next made =>
        obtain ⟨rfl, rfl⟩ := Prod.mk.inj (Except.ok.inj h)
        exact ⟨_, _, _, _, declared, Prod.ext rfl parsed, made, rfl, rfl⟩

theorem statement_ok {directive : Directive} {code : Text} (length : Nat)
    (h : w.statement job directive = .ok (code, w')) :
    Writes job w w' [.statement length directive] (marker length code) ∧ w'.edits = w.edits := by
  obtain ⟨symbols, coded, rfl⟩ := statement_done h
  refine ⟨⟨?_, rfl, [], (List.append_nil _).symm, fun _ member => by simp at member⟩, rfl⟩
  rw [written?_singleton]
  simp only [Part.written?, coded]

theorem macroHead_ok {directive value : Text} {start : Nat} {head : MacroHead}
    (h : w.macroHead job directive value start = .ok head) : MacroHead.read directive value = .ok head := by
  unfold macroHead at h
  split at h
  · next found => rwa [Except.ok.inj h] at found
  · simp [fail] at h

theorem register_ok {directive value code : Text} {head : MacroHead} {body : MacroBody} {span : Span}
    (length : Nat) (read : MacroHead.read directive value = .ok head)
    (h : w.register job head body span = .ok (code, w')) :
    Writes job w w' [.binding length directive value] (marker length code) ∧ w'.edits = w.edits := by
  obtain ⟨symbols, events, template, compiled, declared, _, _, rfl, rfl⟩ := register_done h
  refine ⟨⟨?_, rfl, _, List.append_assoc .., fun _ member => by simp at member⟩, rfl⟩
  rw [written?_singleton]
  simp only [Part.written?, read, declared]

end Walk

end MarkupTemplates
