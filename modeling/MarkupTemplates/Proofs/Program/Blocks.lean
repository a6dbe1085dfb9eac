import MarkupTemplates.Program.Dialect
import MarkupTemplates.Proofs.Program.Instructions

namespace MarkupTemplates

theorem error_of_bind {ε α β : Type} {x : Except ε α} {f : α → Except ε β} {e : ε}
    (h : x >>= f = .error e) : x = .error e ∨ ∃ a, x = .ok a ∧ f a = .error e := by
  cases x with
  | error e' => exact .inl (congrArg _ (Except.error.inj h))
  | ok a => exact .inr ⟨a, rfl, h⟩

/-- The faults of a program that have to do with how its codes are put together, and not with what is written
in an expression or which branch follows which. -/
def CodeError.IsMisplaced (e : CodeError) : Prop :=
  e.message ∈ [("statement is never closed" : Text), "end without statement", "malformed foreach", "malformed set"] ∨
    ∃ code, e.message = ("unknown code " : Text) ++ Text.quoted code

/-- What is wrong with a text that is no expression begins like this. -/
theorem Expression.message_of_error {t : Text} {e : CodeError} (h : Expression.read t = .error e) :
    ∃ rest, e.message = 'c' :: rest := by
  have atom (t : Text) (e : CodeError) (h : Operand.readAtom t = .error e) : ∃ rest, e.message = 'c' :: rest := by
    unfold Operand.readAtom at h
    repeat' split at h
    all_goals first
      | exact Except.error.inj h ▸ ⟨_, rfl⟩
      | cases h
  have operand (t : Text) (e : CodeError) (h : Operand.read t = .error e) : ∃ rest, e.message = 'c' :: rest := by
    fun_induction Operand.read t with
    | case1 t rest read _ ih =>
      cases inner : Operand.read rest with
      | error e' =>
        rw [inner] at h
        exact ih (inner.trans h)
      | ok o =>
        rw [inner] at h
        cases h
    | case2 t c rest read other => exact atom _ _ h
    | case3 t read => exact atom _ _ h
  unfold Expression.read at h
  simp only at h
  split at h
  · next left comparison right _ =>
    rcases error_of_bind h with first | ⟨_, _, h⟩
    · exact operand left e first
    · rcases error_of_bind h with second | ⟨_, _, h⟩
      · exact operand right e second
      · cases h
  · rcases error_of_bind h with read | ⟨_, _, h⟩
    · exact operand t.trim e read
    · cases h

theorem interpolate_message {offset : Nat} {t : Text} {e : CodeError} (h : interpolate offset t = .error e) :
    ∃ rest, e.message = 'c' :: rest := by
  fun_induction interpolate offset t with
  | case1 => cases h
  | case2 offset t before expression rest found _ start e' read =>
    obtain ⟨more, eq⟩ := Expression.message_of_error read
    exact ⟨more, by rw [← Except.error.inj h]; exact eq⟩
  | case3 offset t before expression rest found _ start e' read ih =>
    rcases error_of_bind h with later | ⟨_, _, h⟩
    · exact ih later
    · cases h

theorem CodeError.not_isMisplaced_of_cons {e : CodeError} {rest : Text} (eq : e.message = 'c' :: rest) :
    ¬ e.IsMisplaced := by
  rintro (known | ⟨code, unknown⟩)
  · rw [eq] at known
    simp at known
  · rw [eq] at unknown
    exact absurd (List.cons.inj unknown).1 (by decide)

/-- The word of the statement that a block belongs to. -/
def BlockHead.word : BlockHead → Text
  | ifTrue _ => "if"
  | branch word .. => word
  | each .. => "foreach"

namespace Program

/-- The word that a piece of code begins with. -/
def wordOf (code : Text) : Text := (ProgramDraft.splitCode code).1

/-- A piece of code opens the block of its word, or closes the innermost block, or leaves blocks alone. Open
blocks are listed by their words, from the inside out. -/
def blockStep (opened : List Text) (code : Text) : Option (List Text) :=
  if blockWords.contains (wordOf code) then some (wordOf code :: opened)
  else if wordOf code = ("end" : Text) then
    match opened with
    | [] => none
    | _ :: outer => some outer
  else some opened

/-- The blocks that are open after pieces of code, as long as none of them closes a block that is not open. -/
def blocksAfter (opened : List Text) : List Text → Option (List Text)
  | [] => some opened
  | code :: rest => (blockStep opened code).bind (blocksAfter · rest)

/-- Code that is in order by itself. -/
structure InOrder (code : Text) : Prop where
  known : wordOf code ∈
    [("if" : Text), "elseif", "else", "foreach", "breakif", "set", "var", "bind", "end"]
  parts : wordOf code = ("foreach" : Text) ∨ wordOf code = ("set" : Text) →
    ':' ∈ (ProgramDraft.splitCode code).2

theorem blocksAfter_append (opened : List Text) (first second : List Text) :
    blocksAfter opened (first ++ second) = (blocksAfter opened first).bind (blocksAfter · second) := by
  induction first generalizing opened with
  | nil => rfl
  | cons code first ih =>
    rw [List.cons_append, blocksAfter, blocksAfter, Option.bind_assoc]
    congr 1
    funext next
    exact ih next

end Program

/-- The codes among chunks. -/
def Chunk.codes (chunks : List Chunk) : List Text :=
  chunks.filterMap fun chunk => match chunk with
    | .code _ inner => some inner
    | .text _ => none

namespace ProgramDraft

open Program (wordOf blockStep blocksAfter InOrder)

/-- The draft with more chunks. -/
def through (d : ProgramDraft) : List Chunk → Except CodeError ProgramDraft
  | [] => .ok d
  | chunk :: rest => do through (← d.take chunk) rest

/-- The words of the open blocks, from the inside out. -/
def openWords (opened : List (BlockHead × List Statement)) : List Text := opened.map fun block => block.1.word

theorem finish_eq_through (d : ProgramDraft) (chunks : List Chunk) :
    d.finish chunks = (d.through chunks >>= fun d => d.finish []) := by
  induction chunks generalizing d with
  | nil => rfl
  | cons chunk chunks ih =>
    rw [finish, through]
    cases d.take chunk with
    | error e => rfl
    | ok d => exact ih d

theorem through_append (d : ProgramDraft) (first second : List Chunk) :
    d.through (first ++ second) = (d.through first >>= fun d => d.through second) := by
  induction first generalizing d with
  | nil => rfl
  | cons chunk first ih =>
    rw [List.cons_append, through, through]
    cases d.take chunk with
    | error e => rfl
    | ok d => exact ih d

/-- What a piece of code does to a draft, if it does anything: it enters a block, adds a statement or none, or
closes the innermost open block. -/
inductive Taken (d : ProgramDraft) (code : Text) : ProgramDraft → Prop
  | enters {head : BlockHead} : Program.blockWords.contains (wordOf code) = true → head.word = wordOf code →
      Taken d code (d.enter head)
  | adds {statements : List Statement} : Program.blockWords.contains (wordOf code) = false →
      wordOf code ≠ ("end" : Text) →
      statements = [] ∨ (∃ e, statements = [.breakIf e]) ∨ (∃ var e, statements = [.set var e]) ∨
        (∃ name, splitCode code = (("bind" : Text), name) ∧ statements = [.bind name]) →
      Taken d code (d.add statements)
  | closes {head : BlockHead} {before after : List Statement} {opened : List (BlockHead × List Statement)} :
      Program.blockWords.contains (wordOf code) = false → wordOf code = ("end" : Text) →
      d.opened = (head, before) :: opened → closed before head d.statements = .ok after →
      Taken d code { d with statements := after, opened }

theorem takeCode_taken {d d' : ProgramDraft} {offset : Nat} {code : Text} (h : d.takeCode offset code = .ok d') :
    d.Taken code d' := by
  have word {w args : Text} (own : splitCode code = (w, args)) : wordOf code = w := congrArg Prod.fst own
  rcases takeCode_cases h with ⟨head, opens, rfl⟩ | ⟨statements, adds, rfl⟩ |
    ⟨head, before, after, opened, ⟨args, own⟩, inside, ended, rfl⟩
  · cases opens with
    | ifTrue own _ | elseIf own _ | otherwise own | each own _ _ =>
      exact .enters (by rw [word own]; decide) (word own).symm
  · cases adds with
    | breakIf own _ =>
      exact .adds (by rw [word own]; decide) (by rw [word own]; decide) (.inr (.inl ⟨_, rfl⟩))
    | set own _ _ =>
      exact .adds (by rw [word own]; decide) (by rw [word own]; decide) (.inr (.inr (.inl ⟨_, _, rfl⟩)))
    | var own => exact .adds (by rw [word own]; decide) (by rw [word own]; decide) (.inl rfl)
    | bind own =>
      exact .adds (by rw [word own]; decide) (by rw [word own]; decide) (.inr (.inr (.inr ⟨_, own, rfl⟩)))
  · exact .closes (by rw [word own]; decide) (word own) inside ended

/-- A piece of code does to the open blocks what its word says. -/
theorem takeCode_opened {d d' : ProgramDraft} {offset : Nat} {code : Text}
    (h : d.takeCode offset code = .ok d') :
    (Program.blockWords.contains (wordOf code) = true ∧
        ∃ block, block.1.word = wordOf code ∧ d'.opened = block :: d.opened) ∨
      (Program.blockWords.contains (wordOf code) = false ∧ wordOf code = ("end" : Text) ∧
        ∃ block, d.opened = block :: d'.opened) ∨
      (Program.blockWords.contains (wordOf code) = false ∧ wordOf code ≠ ("end" : Text) ∧
        d'.opened = d.opened) := by
  cases takeCode_taken h with
  | enters isBlock own => exact .inl ⟨isBlock, _, own, rfl⟩
  | adds noBlock other _ => exact .inr (.inr ⟨noBlock, other, rfl⟩)
  | closes noBlock own eq _ => exact .inr (.inl ⟨noBlock, own, _, eq⟩)

theorem closed_message {before body : List Statement} {block : BlockHead} {e : CodeError}
    (h : closed before block body = .error e) : e.message = block.word ++ (" without if" : Text) := by
  unfold closed at h
  split at h
  · cases h
  · cases h
  · simp only at h
    split at h
    · split at h
      · cases h
      · rw [← Except.error.inj h]
        rfl
    · rw [← Except.error.inj h]
      rfl

theorem not_isMisplaced_of_closed {before body : List Statement} {block : BlockHead} {e : CodeError}
    (word : Program.blockWords.contains block.word = true) (h : closed before block body = .error e) :
    ¬ e.IsMisplaced := by
  have message := closed_message h
  simp only [Program.blockWords, List.contains_iff_mem, List.mem_cons, List.not_mem_nil, or_false] at word
  rintro (known | ⟨code, unknown⟩)
  · rw [message] at known
    rcases word with eq | eq | eq | eq <;> (rw [eq] at known; exact absurd known (by decide))
  · rw [message] at unknown
    rcases word with eq | eq | eq | eq <;>
      (rw [eq] at unknown; exact absurd (List.cons.inj unknown).1 (by decide))

/-- Code that reads one expression fails for what is written in it alone. -/
theorem not_isMisplaced_of_read {α : Type} {make : Expression → α} {args : Text} {e : CodeError}
    (h : (do return make (← Expression.read args)) = Except.error e) : ¬ e.IsMisplaced := by
  rcases error_of_bind h with unread | ⟨_, _, h⟩
  · obtain ⟨rest, eq⟩ := Expression.message_of_error unread
    exact CodeError.not_isMisplaced_of_cons eq
  · cases h

/-- Code that is in order fails for what is written in it, or because there is no block to close, or because a
branch has none before it. -/
theorem takeCode_error {d : ProgramDraft} {offset : Nat} {code : Text} {e : CodeError} (inOrder : InOrder code)
    (branches : ∀ block ∈ d.opened, Program.blockWords.contains block.1.word = true)
    (h : d.takeCode offset code = .error e) : e.IsMisplaced → wordOf code = ("end" : Text) ∧ d.opened = [] := by
  intro misplaced
  have known := inOrder.known
  have parts := inOrder.parts
  have cut {args : Text} (mark : ':' ∈ args) (none : Text.cutAt? ':' args = none) : False := by
    obtain ⟨before, rest, rfl, first⟩ := List.eq_append_cons_of_mem mark
    rw [Scan.cutAt?_append rest first] at none
    cases none
  unfold takeCode at h
  rw [wordOf] at known parts ⊢
  simp only at h
  split at h
  · exact (not_isMisplaced_of_read h misplaced).elim
  split at h
  · exact (not_isMisplaced_of_read h misplaced).elim
  split at h
  · cases h
  split at h
  · next own =>
    split at h
    · exact (not_isMisplaced_of_read h misplaced).elim
    · next none => exact (cut (parts (.inl own)) none).elim
  split at h
  · exact (not_isMisplaced_of_read h misplaced).elim
  split at h
  · next own =>
    split at h
    · exact (not_isMisplaced_of_read h misplaced).elim
    · next none => exact (cut (parts (.inr own)) none).elim
  split at h
  · cases h
  split at h
  · cases h
  split at h
  · next own =>
    split at h
    · next block before opened eq =>
      rcases error_of_bind h with unfit | ⟨_, _, h⟩
      · have word := branches _ (by rw [eq]; exact List.mem_cons_self)
        exact (not_isMisplaced_of_closed word unfit misplaced).elim
      · cases h
    · next none => exact ⟨own, none⟩
  · next noIf noElseIf noElse noEach noBreak noSet noVar noBind noEnd =>
    simp only [List.mem_cons, List.not_mem_nil, or_false] at known
    exact absurd known (by
      simp only [not_or]
      exact ⟨noIf, noElseIf, noElse, noEach, noBreak, noSet, noVar, noBind, noEnd⟩)

/-- All open blocks are those of statements that have a block. -/
def Sound (d : ProgramDraft) : Prop := ∀ word ∈ openWords d.opened, Program.blockWords.contains word = true

theorem Sound.takeCode {d d' : ProgramDraft} {offset : Nat} {code : Text} (sound : d.Sound)
    (h : d.takeCode offset code = .ok d') : d'.Sound := by
  intro word member
  rcases takeCode_opened h with ⟨block, top, own, opened⟩ | ⟨_, _, top, opened⟩ | ⟨_, _, opened⟩
  · rw [opened, openWords, List.map_cons] at member
    rcases List.mem_cons.mp member with rfl | member
    · rw [own]
      exact block
    · exact sound word member
  · refine sound word ?_
    rw [opened, openWords, List.map_cons]
    exact List.mem_cons_of_mem _ member
  · rw [opened] at member
    exact sound word member

section

variable {d : ProgramDraft} {new base : List (BlockHead × List Statement)} {after : List Text}

/-- Text adds statements to the innermost open block. -/
theorem take_text {t : Text} : (∀ e, d.take (.text t) = .error e → ¬ e.IsMisplaced) ∧
    ∀ d', d.take (.text t) = .ok d' → d'.opened = d.opened := by
  refine ⟨fun e h => ?_, fun d' h => ?_⟩
  · rcases error_of_bind h with unread | ⟨_, _, h⟩
    · obtain ⟨rest, eq⟩ := interpolate_message unread
      exact CodeError.not_isMisplaced_of_cons eq
    · cases h
  · obtain ⟨statements, _, eq⟩ := ok_of_bind h
    obtain rfl := Except.ok.inj eq
    rfl

/-- Code does to the open blocks what its word says, and leaves alone what is open around them. As long as
it closes no block but theirs, it is not misplaced. -/
theorem take_code (length : Nat) {code : Text} (inOrder : InOrder code) (sound : d.Sound)
    (opened : d.opened = new ++ base) (step : blockStep (openWords new) code = some after) :
    (∀ e, d.take (.code length code) = .error e → ¬ e.IsMisplaced) ∧
      ∀ d', d.take (.code length code) = .ok d' →
        d'.Sound ∧ ∃ new', d'.opened = new' ++ base ∧ openWords new' = after := by
  unfold blockStep at step
  refine ⟨fun e h misplaced => ?_, fun d' h => ?_⟩
  · have branches : ∀ block ∈ d.opened, Program.blockWords.contains block.1.word = true :=
      fun block member => sound _ (List.mem_map.mpr ⟨block, member, rfl⟩)
    obtain ⟨ends, none⟩ := takeCode_error (d := { d with offset := d.offset + length }) inOrder branches h misplaced
    have block : Program.blockWords.contains (wordOf code) = false := by rw [ends]; decide
    have empty : new = [] := (List.append_eq_nil_iff.mp (opened.symm.trans none)).1
    rw [if_neg (by rw [block]; exact Bool.false_ne_true), if_pos ends, empty] at step
    cases step
  · refine ⟨Sound.takeCode (d := { d with offset := d.offset + length }) sound h, ?_⟩
    rcases takeCode_opened h with ⟨block, top, word, eq⟩ | ⟨block, ends, top, eq⟩ | ⟨block, other, eq⟩
    · rw [if_pos block] at step
      refine ⟨top :: new, by rw [eq, opened]; rfl, ?_⟩
      rw [← Option.some.inj step, ← word]
      rfl
    · rw [if_neg (by rw [block]; exact Bool.false_ne_true), if_pos ends] at step
      cases new with
      | nil => cases step
      | cons first new =>
        refine ⟨new, ?_, Option.some.inj step⟩
        rw [opened] at eq
        exact (List.cons.inj eq).2.symm
    · rw [if_neg (by rw [block]; exact Bool.false_ne_true), if_neg other] at step
      exact ⟨new, by rw [eq]; exact opened, Option.some.inj step⟩

end

/-- Chunks do to the open blocks what their codes say, and leave alone what is open around them. As long as
they close no block but their own, nothing is misplaced. -/
theorem through_blocks {d : ProgramDraft} {chunks : List Chunk} {new base : List (BlockHead × List Statement)}
    {after : List Text} (inOrder : ∀ code ∈ Chunk.codes chunks, InOrder code) (sound : d.Sound)
    (opened : d.opened = new ++ base) (blocks : blocksAfter (openWords new) (Chunk.codes chunks) = some after) :
    (∀ e, d.through chunks = .error e → ¬ e.IsMisplaced) ∧
      ∀ d', d.through chunks = .ok d' → d'.Sound ∧ ∃ new', d'.opened = new' ++ base ∧ openWords new' = after := by
  induction chunks generalizing d new with
  | nil =>
    refine ⟨fun e h => (by cases h), fun d' h => ?_⟩
    obtain rfl := Except.ok.inj h
    exact ⟨sound, new, opened, Option.some.inj blocks⟩
  | cons chunk chunks ih =>
    cases chunk with
    | text t =>
      obtain ⟨failed, taken⟩ := take_text (d := d) (t := t)
      have later {d1 : ProgramDraft} (same : d1.opened = d.opened) :=
        ih (d := d1) inOrder (by rw [Sound, same]; exact sound) (same.trans opened) blocks
      refine ⟨fun e h => ?_, fun d' h => ?_⟩
      · rcases error_of_bind h with unfit | ⟨d1, one, h⟩
        · exact failed e unfit
        · exact (later (taken d1 one)).1 e h
      · obtain ⟨d1, one, h⟩ := ok_of_bind h
        exact (later (taken d1 one)).2 d' h
    | code length code =>
      obtain ⟨between, step, rest⟩ := Option.bind_eq_some_iff.mp blocks
      have others : ∀ code ∈ Chunk.codes chunks, InOrder code := fun other member =>
        inOrder other (List.mem_cons_of_mem _ member)
      obtain ⟨failed, taken⟩ := take_code length (inOrder code List.mem_cons_self) sound opened step
      refine ⟨fun e h => ?_, fun d' h => ?_⟩
      · rcases error_of_bind h with unfit | ⟨d1, one, h⟩
        · exact failed e unfit
        · obtain ⟨sound', new', opened', rfl⟩ := taken d1 one
          exact (ih others sound' opened' rest).1 e h
      · obtain ⟨d1, one, h⟩ := ok_of_bind h
        obtain ⟨sound', new', opened', rfl⟩ := taken d1 one
        exact (ih others sound' opened' rest).2 d' h

end ProgramDraft

/-- A program whose blocks are all closed has nothing misplaced in it. -/
theorem Program.not_isMisplaced {chunks : List Chunk} {e : CodeError}
    (inOrder : ∀ code ∈ Chunk.codes chunks, InOrder code) (blocks : blocksAfter [] (Chunk.codes chunks) = some [])
    (h : Program.ofChunks chunks = .error e) : ¬ e.IsMisplaced := by
  have sound : ({} : ProgramDraft).Sound := fun word member => absurd member List.not_mem_nil
  obtain ⟨failed, done⟩ := @ProgramDraft.through_blocks {} chunks [] [] [] inOrder sound rfl blocks
  rw [Program.ofChunks, ProgramDraft.finish_eq_through] at h
  rcases error_of_bind h with unfit | ⟨d, through, ends⟩
  · exact failed e unfit
  · obtain ⟨_, new, opened, none⟩ := done d through
    have empty : d.opened = [] := by rw [opened, List.map_eq_nil_iff.mp none, List.append_nil]
    rw [ProgramDraft.finish, empty] at ends
    cases ends

end MarkupTemplates
