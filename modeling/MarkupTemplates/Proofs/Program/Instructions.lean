import MarkupTemplates.Program.OfChunks
import MarkupTemplates.Proofs.Markup.Legible
import MarkupTemplates.Proofs.ParsedTemplate.Coverage

namespace MarkupTemplates

namespace ProgramDraft

/-- The block that a piece of code at byte `offset` begins. -/
inductive Opens (code : Text) (offset : Nat) : BlockHead → Prop
  | ifTrue {args : Text} {condition : Expression} : splitCode code = (("if" : Text), args) →
      Expression.read args = .ok condition → Opens code offset (.ifTrue condition)
  | elseIf {args : Text} {condition : Expression} : splitCode code = (("elseif" : Text), args) →
      Expression.read args = .ok condition → Opens code offset (.branch "elseif" (some condition) offset)
  | otherwise {args : Text} : splitCode code = (("else" : Text), args) →
      Opens code offset (.branch "else" none offset)
  | each {var rest : Text} {list : Expression} :
      splitCode code = (("foreach" : Text), var ++ ':' :: rest) → ':' ∉ var →
      Expression.read rest = .ok list → Opens code offset (.each var list)

/-- The statements that a piece of code without a block is. Parameters are none. -/
inductive Adds (code : Text) : List Statement → Prop
  | breakIf {args : Text} {condition : Expression} : splitCode code = (("breakif" : Text), args) →
      Expression.read args = .ok condition → Adds code [.breakIf condition]
  | set {var rest : Text} {e : Expression} : splitCode code = (("set" : Text), var ++ ':' :: rest) → ':' ∉ var →
      Expression.read rest = .ok e → Adds code [.set var e]
  | var {args : Text} : splitCode code = (("var" : Text), args) → Adds code []
  | bind {name : Text} : splitCode code = (("bind" : Text), name) → Adds code [.bind name]

/-- A piece of code that closes a block. -/
def Closes (code : Text) : Prop := ∃ args, splitCode code = (("end" : Text), args)

theorem splitCode_append {word : Text} (args : Text) (apart : ':' ∉ word) :
    splitCode (word ++ ':' :: args) = (word, args) := by
  rw [splitCode, Scan.cutAt?_append args apart, Option.getD_some]

variable {d d' : ProgramDraft} {offset : Nat} {code : Text}

theorem add_nil (d : ProgramDraft) : d.add [] = d := by rw [add, List.append_nil]

theorem takeCode_of_opens {head : BlockHead} (opens : Opens code offset head) (d : ProgramDraft) :
    d.takeCode offset code = .ok (d.enter head) := by
  unfold takeCode
  cases opens with
  | ifTrue own read =>
    rw [own]
    simp only [if_true, read]
    rfl
  | elseIf own read =>
    rw [own]
    simp only [read]
    rfl
  | otherwise own =>
    rw [own]
    rfl
  | each own apart read =>
    rw [own]
    simp only [Scan.cutAt?_append _ apart, read]
    rfl

/-- A branch is the same wherever it stands. -/
theorem Opens.anywhere {head : BlockHead} (opens : Opens code offset head) (other : Nat) :
    ∃ head', Opens code other head' ∧
      ∀ before body after, closed before head body = .ok after → closed before head' body = .ok after := by
  have branch (word : Text) (condition : Option Expression) (before body after : List Statement)
      (h : closed before (.branch word condition offset) body = .ok after) :
      closed before (.branch word condition other) body = .ok after := by
    rw [closed] at h ⊢
    split at h
    · split at h
      · next more =>
        rw [if_pos more]
        exact h
      · cases h
    · cases h
  cases opens with
  | ifTrue own read => exact ⟨_, .ifTrue own read, fun _ _ _ h => h⟩
  | elseIf own read => exact ⟨_, .elseIf own read, branch _ _⟩
  | otherwise own => exact ⟨_, .otherwise own, branch _ _⟩
  | each own apart read => exact ⟨_, .each own apart read, fun _ _ _ h => h⟩

theorem takeCode_of_adds {statements : List Statement} (adds : Adds code statements) (d : ProgramDraft)
    (offset : Nat) : d.takeCode offset code = .ok (d.add statements) := by
  unfold takeCode
  cases adds with
  | breakIf own read =>
    rw [own]
    simp only [read]
    rfl
  | set own apart read =>
    rw [own]
    simp only [Scan.cutAt?_append _ apart, read]
    rfl
  | var own =>
    rw [own, add_nil]
    rfl
  | bind own =>
    rw [own]
    rfl

theorem takeCode_of_closes (closes : Closes code) (d : ProgramDraft) (offset : Nat) :
    d.takeCode offset code = match d.opened with
      | (head, before) :: opened => do
        return { d with statements := ← closed before head d.statements, opened }
      | [] => .error { message := "end without statement", offset := some offset } := by
  obtain ⟨args, own⟩ := closes
  unfold takeCode
  rw [own]
  rfl

theorem withoutBlankEnd_subset (statements : List Statement) : withoutBlankEnd statements ⊆ statements :=
  fun _ member => List.mem_reverse.mp (List.dropWhile_subset _ (List.mem_reverse.mp member))

/-- All that a piece of code can do: it opens a block, is a statement by itself, or closes the innermost block. -/
theorem takeCode_cases (h : d.takeCode offset code = .ok d') :
    (∃ head, Opens code offset head ∧ d' = d.enter head) ∨
      (∃ statements, Adds code statements ∧ d' = d.add statements) ∨
      ∃ head before after opened, Closes code ∧ d.opened = (head, before) :: opened ∧
        closed before head d.statements = .ok after ∧ d' = { d with statements := after, opened } := by
  unfold takeCode at h
  cases own : splitCode code with
  | mk word args =>
  rw [own] at h
  simp only at h
  split at h
  · next eq =>
    obtain ⟨condition, read, eq'⟩ := ok_of_bind h
    exact .inl ⟨_, .ifTrue (own.trans (by rw [eq])) read, (Except.ok.inj eq').symm⟩
  split at h
  · next eq =>
    obtain ⟨condition, read, eq'⟩ := ok_of_bind h
    refine .inl ⟨_, .elseIf (own.trans (by rw [eq])) read, ?_⟩
    rw [← Except.ok.inj eq', eq]
  split at h
  · next eq =>
    refine .inl ⟨_, .otherwise (own.trans (by rw [eq])), ?_⟩
    rw [← Except.ok.inj h, eq]
  split at h
  · next eq =>
    split at h
    · next var rest cut =>
      obtain ⟨list, read, eq'⟩ := ok_of_bind h
      refine .inl ⟨_, .each ?_ (Scan.cutAt?_without cut) read, (Except.ok.inj eq').symm⟩
      rw [own, eq, Text.eq_append_of_cutAt? cut]
    · cases h
  split at h
  · next eq =>
    obtain ⟨condition, read, eq'⟩ := ok_of_bind h
    exact .inr (.inl ⟨_, .breakIf (own.trans (by rw [eq])) read, (Except.ok.inj eq').symm⟩)
  split at h
  · next eq =>
    split at h
    · next var rest cut =>
      obtain ⟨e, read, eq'⟩ := ok_of_bind h
      refine .inr (.inl ⟨_, .set ?_ (Scan.cutAt?_without cut) read, (Except.ok.inj eq').symm⟩)
      rw [own, eq, Text.eq_append_of_cutAt? cut]
    · cases h
  split at h
  · next eq => exact .inr (.inl ⟨_, .var (own.trans (by rw [eq])), by rw [add_nil, Except.ok.inj h]⟩)
  split at h
  · next eq => exact .inr (.inl ⟨_, .bind (own.trans (by rw [eq])), (Except.ok.inj h).symm⟩)
  split at h
  · next eq =>
    split at h
    · next head before opened inside =>
      obtain ⟨after, ended, eq'⟩ := ok_of_bind h
      exact .inr (.inr ⟨head, before, after, opened, ⟨args, own.trans (by rw [eq])⟩, inside, ended,
        (Except.ok.inj eq').symm⟩)
    · cases h
  · cases h

end ProgramDraft

theorem interpolate_simple (offset : Nat) (t : Text) : ∀ statements, interpolate offset t = .ok statements →
    ∀ statement ∈ statements, (∃ t, statement = .text t) ∨ ∃ e, statement = .value e := by
  have text (t : Text) : ∀ statement ∈ textStatements t,
      (∃ t, statement = .text t) ∨ ∃ e, statement = .value e := by
    intro statement member
    unfold textStatements at member
    split at member
    · exact absurd member List.not_mem_nil
    · exact .inl ⟨t, List.mem_singleton.mp member⟩
  fun_induction interpolate offset t with
  | case1 offset t =>
    intro statements read
    obtain rfl := Except.ok.inj read
    exact text t
  | case2 =>
    intro statements read
    cases read
  | case3 offset t before expression rest found _ start e read ih =>
    intro statements all
    obtain ⟨more, later, eq⟩ := ok_of_bind all
    obtain rfl := Except.ok.inj eq
    exact List.forall_mem_append.mpr ⟨text before, List.forall_mem_cons.mpr ⟨.inr ⟨e, rfl⟩, ih more later⟩⟩

theorem interpolate_of_none {t : Text} (none : interpolation? t = none) (offset : Nat) :
    interpolate offset t = .ok (textStatements t) := by
  rw [interpolate]
  split
  · rfl
  · next found => cases none.symm.trans found

/-- An expression that is found is read, and then the text behind it. -/
theorem interpolate_of_some {t before expression rest : Text}
    (found : interpolation? t = some (before, expression, rest)) (offset : Nat) :
    interpolate offset t = match Expression.read expression with
      | .error e => .error { message := e.message, offset := some (offset + before.byteSize) }
      | .ok e => do
        let more ← interpolate (offset + before.byteSize + 3 + expression.byteSize) rest
        return textStatements before ++ .value e :: more := by
  rw [interpolate]
  split
  · next none => cases found.symm.trans none
  · next again =>
    cases found.symm.trans again
    rfl

/-- Where a text stands makes no difference to its statements. -/
theorem interpolate_anywhere (offset : Nat) (t : Text) : ∀ statements, interpolate offset t = .ok statements →
    ∀ other, interpolate other t = .ok statements := by
  fun_induction interpolate offset t with
  | case1 offset t none =>
    intro statements read other
    rw [interpolate_of_none none]
    exact read
  | case2 =>
    intro statements read
    cases read
  | case3 offset t before expression rest found _ start e value ih =>
    intro statements read other
    obtain ⟨more, later, eq⟩ := ok_of_bind read
    simp only [interpolate_of_some found, value, ih more later]
    exact eq

/-- Text that shows nothing is written as it is. -/
theorem interpolate_blank {t : Text} (blank : t.onlyBlanks = true) (offset : Nat) :
    interpolate offset t = .ok (textStatements t) := by
  refine interpolate_of_none ?_ offset
  cases found : interpolation? t with
  | none => rfl
  | some parts =>
    obtain ⟨before, expression, rest⟩ := parts
    have dollar : '$' ∈ t := by
      rw [eq_append_of_interpolation? found]
      simp
    exact absurd (List.all_eq_true.mp blank _ dollar) (by decide)

end MarkupTemplates
