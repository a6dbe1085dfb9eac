import MarkupTemplates.Proofs.Program.StatementCodes

namespace MarkupTemplates

open ProgramDraft (Opens Adds Closes)

namespace Chunk

/-- A chunk without a block: text with the expressions in it, or code that is a statement by itself. -/
inductive Alone : Chunk → List Statement → Prop
  | text {t : Text} {offset : Nat} {statements : List Statement} :
      interpolate offset t = .ok statements → Alone (.text t) statements
  | code {length : Nat} {code : Text} {statements : List Statement} :
      Adds code statements → Alone (.code length code) statements

/-- What may stand between two branches: text that shows nothing, and parameters. -/
inductive Parts : Chunk → Prop
  | blank {t : Text} : t.onlyBlanks = true → Parts (.text t)
  | parameters {length : Nat} {code names : Text} :
      ProgramDraft.splitCode code = (("var" : Text), names) → Parts (.code length code)

end Chunk

/-- What chunks can form: a block of statements, one that a piece of code opens and another one closes, and
branches in a row, which another branch may follow or not. -/
inductive Form where
  | block (p : Program)
  | clause (head : BlockHead) (body : Program)
  | openEnded (branches : List (Option Expression × Program))
  | chain (branches : List (Option Expression × Program))

/-- The well-nested lists of chunks and what they come to. -/
inductive Derives : Form → List Chunk → Prop
  | nil : Derives (.block []) []
  | alone {p : Program} {before : List Chunk} {chunk : Chunk} {statements : List Statement} :
      Derives (.block p) before → chunk.Alone statements → Derives (.block (p ++ statements)) (before ++ [chunk])
  | each {p body : Program} {before own : List Chunk} {var : Text} {list : Expression} :
      Derives (.block p) before → Derives (.clause (.each var list) body) own →
      Derives (.block (p ++ [.each var list body])) (before ++ own)
  | branches {p : Program} {before own : List Chunk} {branches : List (Option Expression × Program)} :
      Derives (.block p) before → Derives (.chain branches) own →
      Derives (.block (p ++ [.branches branches])) (before ++ own)
  | clause {head : BlockHead} {body : Program} {inner : List Chunk} {opening closing : Text}
      {length last offset : Nat} : Opens opening offset head → Derives (.block body) inner → Closes closing →
      Derives (.clause head body) (.code length opening :: (inner ++ [.code last closing]))
  | ifTrue {condition : Expression} {body : Program} {own : List Chunk} :
      Derives (.clause (.ifTrue condition) body) own → Derives (.openEnded [(some condition, body)]) own
  | elseIf {branches : List (Option Expression × Program)} {before gap own : List Chunk} {word : Text}
      {condition : Expression} {offset : Nat} {body : Program} :
      Derives (.openEnded branches) before → (∀ chunk ∈ gap, chunk.Parts) →
      Derives (.clause (.branch word (some condition) offset) body) own →
      Derives (.openEnded (branches ++ [(some condition, body)])) (before ++ (gap ++ own))
  | unended {branches : List (Option Expression × Program)} {own : List Chunk} :
      Derives (.openEnded branches) own → Derives (.chain branches) own
  | otherwise {branches : List (Option Expression × Program)} {before gap own : List Chunk} {word : Text}
      {offset : Nat} {body : Program} : Derives (.openEnded branches) before → (∀ chunk ∈ gap, chunk.Parts) →
      Derives (.clause (.branch word none offset) body) own →
      Derives (.chain (branches ++ [(none, body)])) (before ++ (gap ++ own))

namespace ProgramDraft

/-- Blank text, which does not part the branches on both sides of it. -/
def showsNothing : Statement → Bool
  | .text t => t.onlyBlanks
  | _ => false

theorem withoutBlankEnd_eq (statements : List Statement) :
    withoutBlankEnd statements = (statements.reverse.dropWhile showsNothing).reverse := rfl

theorem withoutBlankEnd_eq_nil {statements : List Statement} :
    withoutBlankEnd statements = [] ↔ ∀ s ∈ statements, showsNothing s = true := by
  rw [withoutBlankEnd_eq, List.reverse_eq_nil_iff, List.dropWhile_eq_nil_iff]
  simp only [List.mem_reverse]

theorem withoutBlankEnd_append (first second : List Statement) :
    withoutBlankEnd (first ++ second) =
      if withoutBlankEnd second = [] then withoutBlankEnd first else first ++ withoutBlankEnd second := by
  simp only [withoutBlankEnd_eq, List.reverse_append, List.dropWhile_append, List.reverse_eq_nil_iff,
    List.isEmpty_iff]
  split
  · rfl
  · rw [List.reverse_append, List.reverse_reverse]

theorem withoutBlankEnd_shown {statement : Statement} (shown : showsNothing statement = false)
    (before : List Statement) : withoutBlankEnd (before ++ [statement]) = before ++ [statement] := by
  have own : withoutBlankEnd [statement] = [statement] := by
    rw [withoutBlankEnd_eq, List.reverse_singleton,
      List.dropWhile_cons_of_neg (by rw [shown]; exact Bool.false_ne_true),
      List.reverse_singleton]
  rw [withoutBlankEnd_append, own, if_neg (List.cons_ne_nil _ _)]

theorem showsNothing_textStatements {t : Text} (blank : t.onlyBlanks = true) :
    ∀ s ∈ textStatements t, showsNothing s = true := by
  intro s member
  unfold textStatements at member
  split at member
  · exact absurd member List.not_mem_nil
  · rw [List.mem_singleton.mp member]
    exact blank

theorem isOpenEnded_append (branches : List (Option Expression × Program)) (condition : Option Expression)
    (body : Program) : isOpenEnded (branches ++ [(condition, body)]) = condition.isSome := by
  rw [isOpenEnded, List.getLast?_concat]

/-- A branch goes with the branches before it, whatever blank text is between them. -/
theorem closed_branch {before blanks body : List Statement} {branches : List (Option Expression × Program)}
    (all : ∀ s ∈ blanks, showsNothing s = true) (more : isOpenEnded branches = true) (word : Text)
    (condition : Option Expression) (offset : Nat) :
    closed (before ++ [.branches branches] ++ blanks) (.branch word condition offset) body =
      .ok (before ++ [.branches (branches ++ [(condition, body)])]) := by
  rw [closed, withoutBlankEnd_append, if_pos (withoutBlankEnd_eq_nil.mpr all),
    withoutBlankEnd_shown rfl]
  simp only [List.getLast?_concat, if_pos more, List.dropLast_concat]

/-- A branch is only taken behind branches that go on. -/
theorem closed_branch_cases {before body after : List Statement} {word : Text} {condition : Option Expression}
    {offset : Nat} (h : closed before (.branch word condition offset) body = .ok after) :
    ∃ front branches, withoutBlankEnd before = front ++ [.branches branches] ∧ isOpenEnded branches = true ∧
      after = front ++ [.branches (branches ++ [(condition, body)])] := by
  rw [closed] at h
  split at h
  · next branches last =>
    split at h
    · next more =>
      refine ⟨_, branches, ?_, more, (Except.ok.inj h).symm⟩
      exact (List.dropLast_append_getLast? _ last).symm
    · cases h
  · cases h

/-- From a draft whose innermost open block is at `before` on, the chunks take that block to `after`. -/
def Leads (chunks : List Chunk) (before after : List Statement) : Prop :=
  ∀ d : ProgramDraft, d.statements = before →
    ∃ d', d.through chunks = .ok d' ∧ d'.statements = after ∧ d'.opened = d.opened

theorem Leads.refl (statements : List Statement) : Leads [] statements statements :=
  fun d at_statements => ⟨d, rfl, at_statements, rfl⟩

theorem Leads.append {first second : List Chunk} {before between after : List Statement}
    (front : Leads first before between) (back : Leads second between after) :
    Leads (first ++ second) before after := by
  intro d start
  obtain ⟨d1, taken, middle, opened⟩ := front d start
  obtain ⟨d2, later, stop, opened'⟩ := back d1 middle
  refine ⟨d2, ?_, stop, opened'.trans opened⟩
  rw [through_append, taken]
  exact later

theorem through_single {d d' : ProgramDraft} {chunk : Chunk} (taken : d.take chunk = .ok d') :
    d.through [chunk] = .ok d' := by
  rw [through, taken]
  rfl

theorem leads_alone {chunk : Chunk} {statements : List Statement} (alone : chunk.Alone statements)
    (before : List Statement) : Leads [chunk] before (before ++ statements) := by
  rintro d rfl
  cases alone with
  | @text t offset _ read =>
    have taken : d.take (.text t) = .ok { d.add statements with offset := d.offset + t.byteSize } := by
      rw [take, interpolate_anywhere _ t _ read d.offset]
      rfl
    exact ⟨_, through_single taken, rfl, rfl⟩
  | @code length code _ adds =>
    have taken := takeCode_of_adds adds { d with offset := d.offset + length } d.offset
    exact ⟨_, through_single taken, rfl, rfl⟩

/-- Between the code that opens a block and the code that closes it the chunks lead from nothing to the body of the
block. -/
theorem leads_clause {head : BlockHead} {opening closing : Text} {inner : List Chunk} {length last offset : Nat}
    {before body after : List Statement} (opens : Opens opening offset head) (inside : Leads inner [] body)
    (closes : Closes closing) (ended : closed before head body = .ok after) :
    Leads (.code length opening :: (inner ++ [.code last closing])) before after := by
  rintro d rfl
  obtain ⟨head', begins, same⟩ := opens.anywhere d.offset
  have entered : d.take (.code length opening) = _ :=
    takeCode_of_opens begins { d with offset := d.offset + length }
  obtain ⟨d1, taken, at_body, opened⟩ :=
    inside (({ d with offset := d.offset + length } : ProgramDraft).enter head') rfl
  have left : d1.take (.code last closing) =
      .ok { d1 with offset := d1.offset + last, statements := after, opened := d.opened } := by
    rw [take, takeCode_of_closes closes]
    simp only [opened, enter, at_body, same _ _ _ ended]
    rfl
  refine ⟨{ d1 with offset := d1.offset + last, statements := after, opened := d.opened }, ?_, rfl, rfl⟩
  rw [through, entered]
  show through _ (inner ++ [.code last closing]) = _
  rw [through_append, taken]
  exact through_single left

/-- What parts two branches leaves nothing behind but blank text. -/
theorem exists_blanks {gap : List Chunk} (parts : ∀ chunk ∈ gap, chunk.Parts) :
    ∃ blanks, (∀ s ∈ blanks, showsNothing s = true) ∧ ∀ before, Leads gap before (before ++ blanks) := by
  induction gap with
  | nil => exact ⟨[], fun s member => absurd member List.not_mem_nil, fun before => by
      rw [List.append_nil]
      exact .refl before⟩
  | cons chunk gap ih =>
    obtain ⟨blanks, all, leads⟩ := ih fun next member => parts next (List.mem_cons_of_mem _ member)
    obtain ⟨first, first_blank, alone⟩ : ∃ first, (∀ s ∈ first, showsNothing s = true) ∧ chunk.Alone first := by
      cases parts chunk List.mem_cons_self with
      | blank blank => exact ⟨_, showsNothing_textStatements blank, .text (interpolate_blank blank 0)⟩
      | parameters coded => exact ⟨[], fun s member => absurd member List.not_mem_nil, .code (.var coded)⟩
    refine ⟨first ++ blanks, List.forall_mem_append.mpr ⟨first_blank, all⟩, fun before => ?_⟩
    rw [← List.append_assoc]
    exact (leads_alone alone before).append (leads _)

end ProgramDraft

/-- What the chunks of a form do to a program in the making. -/
def Form.Leads (chunks : List Chunk) : Form → Prop
  | block p => ∀ before, ProgramDraft.Leads chunks before (before ++ p)
  | clause head body => ∀ before after, ProgramDraft.closed before head body = .ok after →
      ProgramDraft.Leads chunks before after
  | openEnded branches => ProgramDraft.isOpenEnded branches = true ∧
      ∀ before, ProgramDraft.Leads chunks before (before ++ [.branches branches])
  | chain branches => ∀ before, ProgramDraft.Leads chunks before (before ++ [.branches branches])

theorem Derives.leads {form : Form} {chunks : List Chunk} (derives : Derives form chunks) : form.Leads chunks := by
  induction derives with
  | nil =>
    intro before
    rw [List.append_nil]
    exact .refl before
  | alone _ alone ih =>
    intro before
    rw [← List.append_assoc]
    exact (ih before).append (ProgramDraft.leads_alone alone _)
  | each _ _ ih own =>
    intro before
    rw [← List.append_assoc]
    exact (ih before).append (own _ _ rfl)
  | branches _ _ ih own =>
    intro before
    rw [← List.append_assoc]
    exact (ih before).append (own _)
  | clause opens _ closes ih => exact fun before after ended => ProgramDraft.leads_clause opens (ih []) closes ended
  | ifTrue _ own => exact ⟨rfl, fun before => own _ _ rfl⟩
  | elseIf _ parts _ ih own =>
    obtain ⟨more, leads⟩ := ih
    obtain ⟨blanks, all, gap⟩ := ProgramDraft.exists_blanks parts
    refine ⟨ProgramDraft.isOpenEnded_append _ _ _, fun before => ?_⟩
    exact (leads before).append ((gap _).append (own _ _ (ProgramDraft.closed_branch all more _ _ _)))
  | unended _ ih => exact ih.2
  | otherwise _ parts _ ih own =>
    obtain ⟨more, leads⟩ := ih
    obtain ⟨blanks, all, gap⟩ := ProgramDraft.exists_blanks parts
    exact fun before =>
      (leads before).append ((gap _).append (own _ _ (ProgramDraft.closed_branch all more _ _ _)))

/-- A program in the making with the chunks it comes from: those of the innermost open block, and for each block
around it those in front of the code that opens the next one. -/
inductive OpenDerivation : List (BlockHead × List Statement) → List Statement → List Chunk → Prop
  | top {p : Program} {chunks : List Chunk} : Derives (.block p) chunks → OpenDerivation [] p chunks
  | inside {head : BlockHead} {before p : Program} {opened : List (BlockHead × List Statement)}
      {outer inner : List Chunk} {length offset : Nat} {code : Text} :
      OpenDerivation opened before outer → Opens code offset head → Derives (.block p) inner →
      OpenDerivation ((head, before) :: opened) p (outer ++ .code length code :: inner)

/-- What is in the innermost open block can be anything else that is well nested. -/
theorem OpenDerivation.innermost {opened : List (BlockHead × List Statement)} {p : Program} {chunks : List Chunk}
    (unfinished : OpenDerivation opened p chunks) : ∃ outer own, chunks = outer ++ own ∧ Derives (.block p) own ∧
      ∀ q other, Derives (.block q) other → OpenDerivation opened q (outer ++ other) := by
  cases unfinished with
  | top derives => exact ⟨[], chunks, rfl, derives, fun q other derives => .top derives⟩
  | @inside head before _ _ outer inner length offset code around opens derives =>
    refine ⟨outer ++ [.code length code], inner, by rw [List.append_assoc]; rfl, derives, fun q other derives => ?_⟩
    rw [List.append_assoc]
    exact .inside around opens derives

/-- Branches that go on are followed by another one. -/
theorem Derives.openEnded_of_chain {branches : List (Option Expression × Program)} {own : List Chunk}
    (chain : Derives (.chain branches) own) (more : ProgramDraft.isOpenEnded branches = true) :
    Derives (.openEnded branches) own := by
  cases chain with
  | unended chain => exact chain
  | otherwise =>
    rw [ProgramDraft.isOpenEnded_append] at more
    cases more

/-- Where nothing of a text is shown, it is blank. -/
theorem onlyBlanks_of_interpolate {offset : Nat} {t : Text} {statements : List Statement}
    (read : interpolate offset t = .ok statements)
    (blank : ∀ s ∈ statements, ProgramDraft.showsNothing s = true) : t.onlyBlanks = true := by
  rw [interpolate] at read
  split at read
  · obtain rfl := Except.ok.inj read
    unfold textStatements at blank
    split at blank
    · next empty => rw [empty]; rfl
    · exact blank _ (List.mem_singleton.mpr rfl)
  · simp only at read
    split at read
    · cases read
    · next e _ =>
      obtain ⟨more, _, eq⟩ := ok_of_bind read
      cases blank (.value e) (by rw [← Except.ok.inj eq]; simp)

/-- A chunk without a block has no branches. It shows nothing just if it may stand between two of them. -/
theorem Chunk.Alone.cases_blank {chunk : Chunk} {statements : List Statement} (alone : chunk.Alone statements) :
    (∀ branches, .branches branches ∉ statements) ∧
      (ProgramDraft.withoutBlankEnd statements = [] → chunk.Parts) := by
  have shown {statement : Statement} (own : ProgramDraft.showsNothing statement = false) :
      ProgramDraft.withoutBlankEnd [statement] = [] → chunk.Parts := fun empty =>
    absurd ((ProgramDraft.withoutBlankEnd_shown own []).symm.trans empty) (List.cons_ne_nil _ _)
  cases alone with
  | @text t offset _ read =>
    refine ⟨fun branches member => ?_, fun empty => .blank ?_⟩
    · rcases interpolate_simple offset t _ read _ member with ⟨s, eq⟩ | ⟨e, eq⟩ <;> cases eq
    · exact onlyBlanks_of_interpolate read (ProgramDraft.withoutBlankEnd_eq_nil.mp empty)
  | code adds =>
    cases adds with
    | breakIf => exact ⟨by simp, shown rfl⟩
    | set => exact ⟨by simp, shown rfl⟩
    | var coded => exact ⟨by simp, fun _ => .parameters coded⟩
    | bind => exact ⟨by simp, shown rfl⟩

/-- Where a block ends in branches but for blank text, its chunks end in those of the branches, but for chunks that
may stand between two branches. -/
theorem Derives.ending {p front : Program} {branches : List (Option Expression × Program)} {chunks : List Chunk}
    (derives : Derives (.block p) chunks)
    (ends : ProgramDraft.withoutBlankEnd p = front ++ [.branches branches]) :
    ∃ before own gap, chunks = before ++ (own ++ gap) ∧ Derives (.block front) before ∧
      Derives (.chain branches) own ∧ ∀ chunk ∈ gap, chunk.Parts := by
  generalize eq : Form.block p = form at derives
  induction derives generalizing p with
  | nil =>
    obtain rfl := Form.block.inj eq
    exact absurd ends.symm (List.append_ne_nil_of_right_ne_nil front (List.cons_ne_nil _ _))
  | @alone p' before chunk statements _ alone ih =>
    obtain rfl := Form.block.inj eq
    obtain ⟨unbranched, parts⟩ := alone.cases_blank
    rw [ProgramDraft.withoutBlankEnd_append] at ends
    split at ends
    · next empty =>
      obtain ⟨before, own, gap, rfl, block, chain, all⟩ := ih ends rfl
      refine ⟨before, own, gap ++ [chunk], by simp only [List.append_assoc], block, chain, ?_⟩
      exact List.forall_mem_append.mpr ⟨all, by simpa using parts empty⟩
    · next shown =>
      -- the last statement that shows is one of the chunk's own, and those are no branches
      have last := congrArg List.getLast? ends
      rw [List.getLast?_append_of_ne_nil _ shown, List.getLast?_concat] at last
      exact absurd (ProgramDraft.withoutBlankEnd_subset _ (List.mem_of_getLast? last)) (unbranched branches)
  | each =>
    obtain rfl := Form.block.inj eq
    rw [ProgramDraft.withoutBlankEnd_shown rfl] at ends
    cases (List.cons.inj (List.append_inj' ends rfl).2).1
  | branches block chain =>
    obtain rfl := Form.block.inj eq
    rw [ProgramDraft.withoutBlankEnd_shown rfl] at ends
    obtain ⟨rfl, same⟩ := List.append_inj' ends rfl
    obtain rfl := Statement.branches.inj (List.cons.inj same).1
    exact ⟨_, _, [], by rw [List.append_nil], block, chain, fun chunk member => absurd member List.not_mem_nil⟩
  | clause => cases eq
  | ifTrue => cases eq
  | elseIf => cases eq
  | unended => cases eq
  | otherwise => cases eq

/-- A block that is closed stands in the block around it as the loop or the branch that its head makes it. -/
theorem OpenDerivation.close {head : BlockHead} {before body after : List Statement}
    {opened : List (BlockHead × List Statement)} {chunks : List Chunk} {last : Nat} {closing : Text}
    (unfinished : OpenDerivation ((head, before) :: opened) body chunks) (closes : Closes closing)
    (ended : ProgramDraft.closed before head body = .ok after) :
    OpenDerivation opened after (chunks ++ [.code last closing]) := by
  cases unfinished with
  | @inside _ _ _ _ _ inner length offset code enclosing opens derives =>
  obtain ⟨outer, own, rfl, block, around⟩ := enclosing.innermost
  have clause : Derives (.clause head body) (.code length code :: (inner ++ [.code last closing])) :=
    .clause opens derives closes
  have regroup : outer ++ own ++ .code length code :: inner ++ [.code last closing] =
      outer ++ (own ++ .code length code :: (inner ++ [.code last closing])) := by
    simp only [List.append_assoc, List.cons_append]
  rw [regroup]
  cases head with
  | ifTrue condition =>
    obtain rfl := Except.ok.inj ended
    exact around _ _ (.branches block (.unended (.ifTrue clause)))
  | each var list =>
    obtain rfl := Except.ok.inj ended
    exact around _ _ (.each block clause)
  | branch word condition offset =>
    obtain ⟨front, branches, ends, more, rfl⟩ := ProgramDraft.closed_branch_cases ended
    obtain ⟨before, own, gap, rfl, block, chain, parts⟩ := block.ending ends
    have before_it := chain.openEnded_of_chain more
    simp only [List.append_assoc]
    cases condition with
    | some condition => exact around _ _ (.branches block (.unended (.elseIf before_it parts clause)))
    | none => exact around _ _ (.branches block (.otherwise before_it parts clause))

/-- One more chunk is one more item, or begins a block, or closes the innermost one. -/
theorem OpenDerivation.take {d d' : ProgramDraft} {chunk : Chunk} {chunks : List Chunk}
    (unfinished : OpenDerivation d.opened d.statements chunks) (h : d.take chunk = .ok d') :
    OpenDerivation d'.opened d'.statements (chunks ++ [chunk]) := by
  have item {statements : List Statement} (alone : chunk.Alone statements) :
      OpenDerivation d.opened (d.statements ++ statements) (chunks ++ [chunk]) := by
    obtain ⟨outer, own, rfl, derives, around⟩ := unfinished.innermost
    rw [List.append_assoc]
    exact around _ _ (.alone derives alone)
  cases chunk with
  | text t =>
    obtain ⟨statements, read, eq⟩ := ok_of_bind h
    obtain rfl := Except.ok.inj eq
    exact item (.text read)
  | code length code =>
    rcases ProgramDraft.takeCode_cases h with ⟨head, opens, rfl⟩ | ⟨statements, adds, rfl⟩ |
      ⟨head, before, after, opened, closes, inside, ended, rfl⟩
    · exact .inside unfinished opens .nil
    · exact item (.code adds)
    · have before_end : OpenDerivation ((head, before) :: opened) d.statements chunks := inside ▸ unfinished
      exact before_end.close closes ended

theorem OpenDerivation.through {d d' : ProgramDraft} {first rest : List Chunk}
    (unfinished : OpenDerivation d.opened d.statements first) (h : d.through rest = .ok d') :
    OpenDerivation d'.opened d'.statements (first ++ rest) := by
  induction rest generalizing d first with
  | nil =>
    obtain rfl := Except.ok.inj h
    rwa [List.append_nil]
  | cons chunk rest ih =>
    obtain ⟨between, taken, later⟩ := ok_of_bind h
    have whole := ih (unfinished.take taken) later
    rwa [List.append_assoc, List.singleton_append] at whole

theorem ProgramDraft.Leads.ofChunks {chunks : List Chunk} {p : Program} (leads : Leads chunks [] p) :
    Program.ofChunks chunks = .ok p := by
  obtain ⟨d, through, statements, opened⟩ := leads {} rfl
  rw [Program.ofChunks, finish_eq_through, through]
  show d.finish [] = _
  rw [finish, opened, statements]
  rfl

theorem Program.derives_of_ofChunks {chunks : List Chunk} {p : Program} (h : Program.ofChunks chunks = .ok p) :
    Derives (.block p) chunks := by
  rw [ofChunks, ProgramDraft.finish_eq_through] at h
  obtain ⟨d, through, ends⟩ := ok_of_bind h
  have unfinished : OpenDerivation d.opened d.statements ([] ++ chunks) := .through (.top .nil) through
  rw [ProgramDraft.finish] at ends
  split at ends
  · next closed =>
    obtain rfl := Except.ok.inj ends
    rw [List.isEmpty_iff.mp closed] at unfinished
    cases unfinished with
    | top derives => exact derives
  · cases ends

/-- Chunks have a program just if they are well nested, and it is the one that they derive. All codes of the dialect
can take part: each of them opens a block, is a statement by itself or closes a block. -/
theorem programs_of_well_nested_chunks :
    (∀ code, Program.Emits code →
      (∀ offset, ∃ head, Opens code offset head) ∨ (∃ statements, Adds code statements) ∨ Closes code) ∧
    ∀ chunks p, Program.ofChunks chunks = .ok p ↔ Derives (.block p) chunks := by
  refine ⟨fun code emits => emits.read, fun chunks p => ⟨Program.derives_of_ofChunks, fun derives => ?_⟩⟩
  have leads : ProgramDraft.Leads chunks [] ([] ++ p) := derives.leads []
  exact leads.ofChunks

/-- A condition and what holds otherwise, with a blank and a parameter between them. -/
theorem program_of_chain_with_gap :
    Program.ofChunks [.code 4 "if:x", .text "a", .code 0 "end:", .text " ", .code 8 "var:y", .code 5 "else:",
      .text "b", .code 0 "end:"] =
      .ok [.branches [(some ⟨"x", .name "x", none⟩, [.text "a"]), (none, [.text "b"])]] := by
  have ends : Closes "end:" := ⟨[], by decide⟩
  have text (t : Text) (plain : interpolation? t = none) : Derives (.block (textStatements t)) [.text t] :=
    .alone .nil (.text (interpolate_of_none plain 0))
  have condition : Opens "if:x" 0 (.ifTrue ⟨"x", .name "x", none⟩) :=
    .ifTrue (show _ = (_, ("x" : Text)) by decide) (by decide +kernel)
  have other : Opens "else:" 0 (.branch "else" none 0) := .otherwise (show _ = (_, []) by decide)
  have parameter : Chunk.Parts (.code 8 "var:y") :=  .parameters (show _ = (_, ("y" : Text)) by decide)
  have first : Derives (.clause _ _) [.code 4 "if:x", .text "a", .code 0 "end:"] :=
    .clause condition (text "a" (by decide)) ends
  have gap : ∀ chunk ∈ [Chunk.text " ", .code 8 "var:y"], chunk.Parts :=
    List.forall_mem_cons.mpr ⟨.blank (by decide), List.forall_mem_singleton.mpr parameter⟩
  have second : Derives (.clause _ _) [.code 5 "else:", .text "b", .code 0 "end:"] :=
    .clause other (text "b" (by decide)) ends
  exact (programs_of_well_nested_chunks.2 _ _).mpr (.branches .nil (.otherwise (.ifTrue first) gap second))

end MarkupTemplates
