import MarkupTemplates.Proofs.Text.Chunks
import MarkupTemplates.Proofs.Program.WellNested

namespace MarkupTemplates

open ProgramDraft (Opens Adds Closes Leads)

/-- A program that another branch can follow: it ends in branches that go on, with nothing behind them that
shows. -/
def Program.GoesOn (p : Program) : Prop :=
  ∃ front branches blanks, p = front ++ [.branches branches] ++ blanks ∧
    ProgramDraft.isOpenEnded branches = true ∧ ∀ s ∈ blanks, ProgramDraft.showsNothing s = true

namespace Directive

/-- What a statement makes of the program in front of it and the one in its block or, if it has none, behind it. -/
inductive Means (d : Directive) (front inner : Program) : Program → Prop
  | ifTrue {condition : Expression} : d.kind = .ifTrue → Expression.read d.value = .ok condition →
      Means d front inner (front ++ [.branches [(some condition, inner)]])
  | elseIf {condition : Expression} {before blanks : Program} {branches : List (Option Expression × Program)} :
      d.kind = .elseIf → Expression.read d.value = .ok condition →
      front = before ++ [.branches branches] ++ blanks →
      (∀ s ∈ blanks, ProgramDraft.showsNothing s = true) →
      Means d front inner (before ++ [.branches (branches ++ [(some condition, inner)])])
  | otherwise {before blanks : Program} {branches : List (Option Expression × Program)} :
      d.kind = .otherwise → front = before ++ [.branches branches] ++ blanks →
      (∀ s ∈ blanks, ProgramDraft.showsNothing s = true) →
      Means d front inner (before ++ [.branches (branches ++ [(none, inner)])])
  | each {var rest : Text} {list : Expression} : d.kind = .forEach → d.value = var ++ ':' :: rest → ':' ∉ var →
      Expression.read rest = .ok list → Means d front inner (front ++ [.each var.trim list inner])
  | breakIf {condition : Expression} : d.kind = .breakIf → Expression.read d.value = .ok condition →
      Means d front inner (front ++ [.breakIf condition] ++ inner)
  | set {var rest : Text} {e : Expression} : d.kind = .set → d.value = var ++ '=' :: rest → '=' ∉ var →
      Expression.read rest = .ok e → Means d front inner (front ++ [.set var.trim e] ++ inner)
  | var : d.kind = .var → Means d front inner (front ++ inner)

/-- The code of a statement in its place between texts, with the code that closes it if there is one. -/
def embedded (d : Directive) (code : Text) (length last : Nat) (before inner : Text) : Text :=
  before ++ (marker length code ++ (inner ++
    if Program.endingCode d.name = [] then [] else marker last (Program.endingCode d.name)))

end Directive

section

variable {d : Directive} {code before inner : Text} {length last : Nat} {front body : Program}

theorem Directive.chunks_embedded (clean : (Chunk.code length code).Clean) (short : last < Marker.lengthBound) :
    (d.embedded code length last before inner).chunks = before.chunks ++ .code length code :: (inner.chunks ++
      if Program.endingCode d.name = [] then [] else [.code last "end:"]) := by
  rw [embedded, Text.chunks_around (Marker.spells_marker clean)]
  split
  · rw [List.append_nil, List.append_nil]
  · next some_code =>
    rw [(Program.endingCode_eq _).resolve_left some_code]
    have ends : (Chunk.code last "end:").Clean := ⟨short, List.all_eq_true.mp rfl⟩
    have behind := Text.chunks_around (Marker.spells_marker ends) inner []
    rw [List.append_nil] at behind
    rw [behind, Text.chunks]

/-- The block of a statement is closed as what the statement means. -/
theorem Directive.Begins.closed {offset : Nat} {head : BlockHead} (begins : d.Begins offset head)
    (chain : d.kind = .elseIf ∨ d.kind = .otherwise → front.GoesOn) (inner : Program) :
    ∃ after, ProgramDraft.closed front head inner = .ok after ∧ d.Means front inner after := by
  cases begins with
  | ifTrue kind read => exact ⟨_, rfl, .ifTrue kind read⟩
  | each kind split apart read => exact ⟨_, rfl, .each kind split apart read⟩
  | elseIf kind read =>
    obtain ⟨before, branches, blanks, rfl, more, all⟩ := chain (.inl kind)
    exact ⟨_, ProgramDraft.closed_branch all more _ _ _, .elseIf kind read rfl all⟩
  | otherwise kind =>
    obtain ⟨before, branches, blanks, rfl, more, all⟩ := chain (.inr kind)
    exact ⟨_, ProgramDraft.closed_branch all more _ _ _, .otherwise kind rfl all⟩

theorem Directive.Is.means {statements : List Statement} (own : d.Is statements) (front inner : Program) :
    d.Means front inner (front ++ statements ++ inner) := by
  cases own with
  | breakIf kind read => exact .breakIf kind read
  | set kind split apart read => exact .set kind split apart read
  | var kind =>
    rw [List.append_nil]
    exact .var kind

/-- Chunks that have a program lead any block on by it. -/
theorem Program.leads_of_ofChunks {chunks : List Chunk} {p : Program} (h : Program.ofChunks chunks = .ok p)
    (before : List Statement) : Leads chunks before (before ++ p) :=
  (Program.derives_of_ofChunks h).leads before

/-- Chunks have no program if they close a block more than they open. -/
theorem Program.ofChunks_ne_ok_of_closed {chunks : List Chunk} {q : Program} (h : Program.ofChunks chunks = .ok q)
    {closing : Text} (closes : Closes closing) (last : Nat) (p : Program) :
    Program.ofChunks (chunks ++ [.code last closing]) ≠ .ok p := by
  obtain ⟨d, through, -, opened⟩ := Program.leads_of_ofChunks h [] {} rfl
  have refused : d.take (.code last closing) =
      .error { message := "end without statement", offset := some d.offset } := by
    rw [ProgramDraft.take, ProgramDraft.takeCode_of_closes closes]
    simp only [opened]
  rw [ofChunks, ProgramDraft.finish_eq_through, ProgramDraft.through_append, through]
  show (ProgramDraft.through d [.code last closing] >>= _) ≠ _
  rw [ProgramDraft.through, refused]
  intro read
  cases read

section

variable {chunks behind : List Chunk} (first : Program.ofChunks chunks = .ok front)
  (second : Program.ofChunks behind = .ok body)

include first second

/-- A statement without a block stands between the programs in front of it and behind it. -/
theorem Program.ofChunks_alone {statements : List Statement} (adds : Adds code statements) (length : Nat) :
    Program.ofChunks (chunks ++ .code length code :: behind) = .ok (front ++ statements ++ body) :=
  ((leads_of_ofChunks first []).append ((ProgramDraft.leads_alone (.code adds) front).append
    (leads_of_ofChunks second _))).ofChunks

/-- A block has a program if it is closed. -/
theorem Program.ofChunks_closed {offset : Nat} {head : BlockHead} {closing : Text} {after : Program}
    (opens : Opens code offset head) (closes : Closes closing)
    (ended : ProgramDraft.closed front head body = .ok after) (length last : Nat) :
    Program.ofChunks (chunks ++ .code length code :: (behind ++ [.code last closing])) = .ok after :=
  ((leads_of_ofChunks first []).append
    (ProgramDraft.leads_clause opens (leads_of_ofChunks second []) closes ended)).ofChunks

/-- A block has no program if it is not closed. -/
theorem Program.ofChunks_ne_ok_of_opened (opens : ∀ offset, ∃ head, Opens code offset head)
    (length : Nat) (p : Program) : Program.ofChunks (chunks ++ .code length code :: behind) ≠ .ok p := by
  obtain ⟨d, ahead, -, -⟩ := leads_of_ofChunks first [] {} rfl
  obtain ⟨head, opens⟩ := opens d.offset
  have entered : d.take (.code length code) = _ :=
    ProgramDraft.takeCode_of_opens opens { d with offset := d.offset + length }
  obtain ⟨d', inside, -, opened⟩ := leads_of_ofChunks second []
    (({ d with offset := d.offset + length } : ProgramDraft).enter head) rfl
  have through : ({} : ProgramDraft).through (chunks ++ .code length code :: behind) = .ok d' := by
    rw [ProgramDraft.through_append, ahead]
    show ProgramDraft.through d (.code length code :: behind) = _
    rw [ProgramDraft.through, entered]
    exact inside
  rw [ofChunks, ProgramDraft.finish_eq_through, through]
  show d'.finish [] ≠ _
  rw [ProgramDraft.finish, opened]
  intro read
  cases read

end

/-- The name under which a directive is written ends in the word of its kind. -/
def Directive.NamedByKind (d : Directive) : Prop := (Text.parts ':' d.name).getLastD [] = d.kind.defaultName

theorem Directive.NamedByKind.ending (named : d.NamedByKind) :
    Program.endingCode d.name ≠ [] ↔ d.kind.hasBlock = true := by
  rw [Program.endingCode, named, DirectiveKind.hasBlock]
  cases Program.blockWords.contains d.kind.defaultName <;> simp

variable {symbols after : SymbolTable}

/-- The code of a statement is read as the very statement, in whatever program it stands, but for one thing: the
dialect knows by the name under which a directive is written whether there is a block to close. Names that end in
the word of the statement tell it rightly. -/
theorem statements_read_back (coded : Program.dialect.statement d symbols = .ok (code, after))
    (plain : d.value.Plain)
    (short : length < Marker.lengthBound) (last_short : last < Marker.lengthBound)
    (before_read : Program.ofChunks before.chunks = .ok front)
    (inner_read : Program.ofChunks inner.chunks = .ok body)
    (chain : d.kind = .elseIf ∨ d.kind = .otherwise → front.GoesOn) :
    let read := Program.ofChunks (d.embedded code length last before inner).chunks
    ((∃ p, read = .ok p) ↔ (Program.dialect.ending d.name ≠ [] ↔ d.kind.hasBlock = true)) ∧
      (d.NamedByKind → ∃ p, read = .ok p) ∧ ∀ p, read = .ok p → d.Means front body p := by
  intro read
  have closes : Closes "end:" := ⟨[], by decide⟩
  have whole : ((∃ p, read = .ok p) ↔ (Program.endingCode d.name ≠ [] ↔ d.kind.hasBlock = true)) ∧
      ∀ p, read = .ok p → d.Means front body p := by
    show ((∃ p, Program.ofChunks _ = .ok p) ↔ _) ∧ ∀ p, Program.ofChunks _ = .ok p → _
    rw [Directive.chunks_embedded ⟨short, Program.statementCode_plain coded plain⟩ last_short]
    rcases Program.statementCode_reads coded with ⟨block, begins⟩ | ⟨noBlock, statements, own, adds⟩
    · split
      · next none =>
        have refused := Program.ofChunks_ne_ok_of_opened before_read inner_read
          (fun offset => (begins offset).imp fun _ both => both.2) length
        rw [List.append_nil]
        refine ⟨⟨fun ⟨p, read⟩ => absurd read (refused p), fun same => ?_⟩, fun p read => absurd read (refused p)⟩
        exact absurd none (same.mpr block)
      · next some_code =>
        obtain ⟨head, begins, opens⟩ := begins 0
        obtain ⟨after, ended, means⟩ := begins.closed chain body
        have accepted := Program.ofChunks_closed before_read inner_read opens closes ended length last
        refine ⟨⟨fun _ => ⟨fun _ => block, fun _ => some_code⟩, fun _ => ⟨_, accepted⟩⟩, fun p read => ?_⟩
        obtain rfl := Except.ok.inj (accepted.symm.trans read)
        exact means
    · have alone := Program.ofChunks_alone before_read inner_read adds length
      split
      · next none =>
        rw [List.append_nil]
        refine ⟨⟨fun _ => ⟨absurd none, fun block => ?_⟩, fun _ => ⟨_, alone⟩⟩, fun p read => ?_⟩
        · rw [noBlock] at block
          cases block
        · obtain rfl := Except.ok.inj (alone.symm.trans read)
          exact own.means front body
      · next some_code =>
        have refused (p : Program) := Program.ofChunks_ne_ok_of_closed alone closes last p
        simp only [List.append_assoc, List.cons_append] at refused
        refine ⟨⟨fun ⟨p, read⟩ => absurd read (refused p), fun same => ?_⟩, fun p read => absurd read (refused p)⟩
        have block := same.mp some_code
        rw [noBlock] at block
        cases block
  exact ⟨whole.1, fun named => whole.1.mpr named.ending, whole.2⟩

end

/-- A branch whose condition compares a name with a quotation that holds separators, behind a condition and a
blank. -/
theorem statements_read_back_of_branch :
    let d : Directive := ⟨.elseIf, "t:elseif", " a == 'x:y=1' ", 3, 12⟩
    let code : Text := "elseif:a == 'x:y=1'"
    let before : Text := marker 7 "if:b" ++ (marker 0 "end:" ++ [' '])
    let front : Program := [.branches [(some ⟨"b", .name "b", none⟩, [])], .text " "]
    let read := Program.ofChunks (d.embedded code 26 0 before []).chunks
    Program.dialect.statement d {} = .ok (code, {}) ∧ d.value.Plain ∧ 26 < Marker.lengthBound ∧
      0 < Marker.lengthBound ∧ Program.ofChunks before.chunks = .ok front ∧
      Program.ofChunks (Text.chunks []) = .ok [] ∧
      front.GoesOn ∧ ((∃ p, read = .ok p) ↔ (Program.dialect.ending d.name ≠ [] ↔ d.kind.hasBlock = true)) ∧
      (d.NamedByKind → ∃ p, read = .ok p) ∧ ∀ p, read = .ok p → d.Means front [] p := by
  intro d code before front read
  have condition : Expression.read d.value =
      .ok ⟨"a == 'x:y=1'", .name "a", some (.equal, .literal (.str "x:y=1"))⟩ := by decide +kernel
  have coded : Program.dialect.statement d {} = .ok (code, {}) := by
    show (Program.expressionCode "elseif" d.value >>= _) = _
    rw [Program.expressionCode, condition]
    rfl
  have chunks : before.chunks = [.code 7 "if:b", .code 0 "end:"] ++ [.text " "] := by decide +kernel
  have opens : Opens "if:b" 0 (.ifTrue ⟨"b", .name "b", none⟩) :=
    .ifTrue (show _ = (_, ("b" : Text)) by decide) (by decide +kernel)
  have derives : Derives (.block front) before.chunks := by
    rw [chunks]
    exact .alone (.branches .nil (.unended (.ifTrue (.clause opens .nil ⟨[], by decide⟩))))
      (.text (interpolate_of_none (by decide) 0))
  have before_read : Program.ofChunks before.chunks = .ok front := ProgramDraft.Leads.ofChunks (derives.leads [])
  have inner_read : Program.ofChunks (Text.chunks []) = .ok [] := by
    rw [Text.chunks]
    rfl
  have goes_on : front.GoesOn := ⟨[], _, [.text " "], rfl, rfl, by simpa using (by decide)⟩
  have plain : d.value.Plain := by decide
  exact ⟨coded, plain, by decide, by decide, before_read, inner_read, goes_on,
    statements_read_back coded plain (by decide) (by decide) before_read inner_read fun _ => goes_on⟩

/-- A condition under a name that does not end in its word: the dialect has code for it, and none to close its
block. -/
theorem condition_under_other_name :
    let d : Directive := ⟨.ifTrue, "cond", "x", 3, 9⟩
    Program.dialect.statement d {} = .ok ("if:x", {}) ∧ d.value.Plain ∧ Program.dialect.ending d.name = [] ∧
      Program.ofChunks (d.embedded "if:x" 9 0 [] []).chunks =
        .error { message := "statement is never closed", offset := some 9 } := by
  intro d
  have condition : Expression.read "x" = .ok ⟨"x", .name "x", none⟩ := by decide +kernel
  have coded : Program.dialect.statement d {} = .ok ("if:x", {}) := by
    show (Program.expressionCode "if" "x" >>= _) = _
    rw [Program.expressionCode, condition]
    rfl
  have chunks : (d.embedded "if:x" 9 0 [] []).chunks = [.code 9 "if:x"] := by decide +kernel
  have opens : Opens "if:x" 0 (.ifTrue ⟨"x", .name "x", none⟩) :=
    .ifTrue (show _ = (_, ("x" : Text)) by decide) condition
  refine ⟨coded, by decide, by decide, ?_⟩
  rw [chunks, Program.ofChunks, ProgramDraft.finish, ProgramDraft.take, ProgramDraft.takeCode_of_opens opens]
  rfl

end MarkupTemplates
