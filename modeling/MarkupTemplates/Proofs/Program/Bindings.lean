import MarkupTemplates.Proofs.ParsedTemplate.Names
import MarkupTemplates.Proofs.Program.Nesting
import MarkupTemplates.Proofs.Rendering.Account

namespace MarkupTemplates

namespace Program

theorem has_append {p q : Program} {statement : Statement} :
    Has (p ++ q) statement ↔ p.Has statement ∨ q.Has statement := by
  constructor
  · intro has
    cases has with
    | here member =>
      rcases List.mem_append.mp member with member | member
      · exact .inl (.here member)
      · exact .inr (.here member)
    | branch member inside has =>
      rcases List.mem_append.mp member with member | member
      · exact .inl (.branch member inside has)
      · exact .inr (.branch member inside has)
    | each member has =>
      rcases List.mem_append.mp member with member | member
      · exact .inl (.each member has)
      · exact .inr (.each member has)
  · rintro (has | has)
    · exact has.mono (List.subset_append_left p q)
    · exact has.mono (List.subset_append_right p q)

/-- The program binds the macro of that name somewhere. -/
abbrev Binds (p : Program) (name : Text) : Prop := p.Has (.bind name)

theorem binds_branches {all : List (Option Expression × List Statement)} {name : Text}
    (binds : Binds [.branches all] name) : ∃ condition body, (condition, body) ∈ all ∧ Binds body name := by
  cases binds with
  | here member => cases List.mem_singleton.mp member
  | branch member inside has =>
    obtain rfl := Statement.branches.inj (List.mem_singleton.mp member)
    exact ⟨_, _, inside, has⟩
  | each member => cases List.mem_singleton.mp member

theorem binds_each {var : Text} {list : Expression} {body : List Statement} {name : Text}
    (binds : Binds [.each var list body] name) : Binds body name := by
  cases binds with
  | here member => cases List.mem_singleton.mp member
  | branch member => cases List.mem_singleton.mp member
  | each member has =>
    obtain ⟨_, _, rfl⟩ := Statement.each.inj (List.mem_singleton.mp member)
    exact has

/-- Text and values have no parts. -/
theorem mem_of_simple {p : Program} (simple : ∀ statement ∈ p, (∃ t, statement = .text t) ∨ ∃ e, statement = .value e)
    {statement : Statement} (has : p.Has statement) : statement ∈ p := by
  cases has with
  | here member => exact member
  | branch member => rcases simple _ member with ⟨t, eq⟩ | ⟨e, eq⟩ <;> cases eq
  | each member => rcases simple _ member with ⟨t, eq⟩ | ⟨e, eq⟩ <;> cases eq

/-- Text binds nothing, and neither do values. -/
theorem not_binds_of_simple {p : Program}
    (simple : ∀ statement ∈ p, (∃ t, statement = .text t) ∨ ∃ e, statement = .value e) (name : Text) : ¬ p.Binds name := by
  intro binds
  rcases simple _ (mem_of_simple simple binds) with ⟨t, eq⟩ | ⟨e, eq⟩ <;> cases eq

end Program

namespace ProgramDraft

/-- What a program in the making binds, in its open blocks and in front of them. -/
def Binds (d : ProgramDraft) (name : Text) : Prop :=
  Program.Binds d.statements name ∨ ∃ block ∈ d.opened, Program.Binds block.2 name

theorem binds_of_closed {before body after : List Statement} {block : BlockHead} {name : Text}
    (h : closed before block body = .ok after) (binds : Program.Binds after name) :
    Program.Binds before name ∨ Program.Binds body name := by
  unfold closed at h
  split at h
  · obtain rfl := Except.ok.inj h
    refine (Program.has_append.mp binds).imp_right fun binds => ?_
    obtain ⟨_, _, member, inside⟩ := Program.binds_branches binds
    obtain ⟨_, rfl⟩ := Prod.mk.inj (List.mem_singleton.mp member)
    exact inside
  · obtain rfl := Except.ok.inj h
    exact (Program.has_append.mp binds).imp_right Program.binds_each
  · simp only at h
    split at h
    · next branches last =>
      split at h
      · obtain rfl := Except.ok.inj h
        rcases Program.has_append.mp binds with binds | binds
        · exact .inl (binds.mono (List.Subset.trans (List.dropLast_subset _) (withoutBlankEnd_subset before)))
        · obtain ⟨_, _, member, inside⟩ := Program.binds_branches binds
          rcases List.mem_append.mp member with member | member
          · exact .inl (.branch (withoutBlankEnd_subset before (List.mem_of_getLast? last)) member inside)
          · obtain ⟨_, rfl⟩ := Prod.mk.inj (List.mem_singleton.mp member)
            exact .inr inside
      · cases h
    · cases h

/-- Code that binds a macro of that name. -/
def IsBinding (code name : Text) : Prop := splitCode code = (("bind" : Text), name)

theorem binds_add {d : ProgramDraft} {statements : List Statement} {name : Text}
    (binds : (d.add statements).Binds name) : d.Binds name ∨ Program.Binds statements name := by
  rcases binds with binds | outer
  · exact (Program.has_append.mp binds).imp_left .inl
  · exact .inl (.inr outer)

theorem binds_enter {d : ProgramDraft} {block : BlockHead} {name : Text} (binds : (d.enter block).Binds name) :
    d.Binds name := by
  rcases binds with binds | ⟨outer, member, binds⟩
  · exact absurd binds (Program.not_binds_of_simple (fun _ member => absurd member List.not_mem_nil) name)
  · rcases List.mem_cons.mp member with rfl | member
    · exact .inl binds
    · exact .inr ⟨outer, member, binds⟩

/-- A statement by itself that is neither a block nor a binding. -/
theorem not_binds_singleton {statement : Statement} {name : Text}
    (plain : (∃ e, statement = .breakIf e) ∨ ∃ var e, statement = .set var e) : ¬ Program.Binds [statement] name := by
  intro binds
  cases binds with
  | here member => rcases plain with ⟨e, rfl⟩ | ⟨var, e, rfl⟩ <;> cases List.mem_singleton.mp member
  | branch member => rcases plain with ⟨e, rfl⟩ | ⟨var, e, rfl⟩ <;> cases List.mem_singleton.mp member
  | each member => rcases plain with ⟨e, rfl⟩ | ⟨var, e, rfl⟩ <;> cases List.mem_singleton.mp member

/-- A piece of code binds the macro that it names, and no other. -/
theorem binds_of_takeCode {d d' : ProgramDraft} {offset : Nat} {code name : Text}
    (h : d.takeCode offset code = .ok d') (binds : d'.Binds name) : d.Binds name ∨ IsBinding code name := by
  cases takeCode_taken h with
  | enters => exact .inl (binds_enter binds)
  | adds _ _ added =>
    refine (binds_add binds).imp_right fun binds => ?_
    rcases added with rfl | ⟨e, rfl⟩ | ⟨var, e, rfl⟩ | ⟨own, isBinding, rfl⟩
    · exact absurd binds (Program.not_binds_of_simple (fun _ member => absurd member List.not_mem_nil) name)
    · exact absurd binds (not_binds_singleton (.inl ⟨e, rfl⟩))
    · exact absurd binds (not_binds_singleton (.inr ⟨var, e, rfl⟩))
    · cases binds with
      | here member => rw [IsBinding, isBinding, Statement.bind.inj (List.mem_singleton.mp member)]
      | branch member => cases List.mem_singleton.mp member
      | each member => cases List.mem_singleton.mp member
  | @closes block before after opened _ _ eq ended =>
    refine .inl ?_
    rcases binds with binds | ⟨outer, member, binds⟩
    · rcases binds_of_closed ended binds with binds | binds
      · exact .inr ⟨(block, before), by rw [eq]; exact List.mem_cons_self, binds⟩
      · exact .inl binds
    · exact .inr ⟨outer, by rw [eq]; exact List.mem_cons_of_mem _ member, binds⟩

theorem binds_of_through {d d' : ProgramDraft} {chunks : List Chunk} {name : Text} (h : d.through chunks = .ok d')
    (binds : d'.Binds name) :
    d.Binds name ∨ ∃ length code, .code length code ∈ chunks ∧ IsBinding code name := by
  induction chunks generalizing d with
  | nil =>
    obtain rfl := Except.ok.inj h
    exact .inl binds
  | cons chunk chunks ih =>
    obtain ⟨d1, taken, rest⟩ := ok_of_bind h
    rcases ih rest with earlier | ⟨length, code, member, own⟩
    · cases chunk with
      | text t =>
        obtain ⟨statements, read, eq⟩ := ok_of_bind taken
        obtain rfl := Except.ok.inj eq
        have simple := Program.not_binds_of_simple (interpolate_simple _ t _ read) name
        exact .inl ((binds_add earlier).resolve_right simple)
      | code length code =>
        rcases binds_of_takeCode (d := { d with offset := d.offset + length }) taken earlier with before | own
        · exact .inl before
        · exact .inr ⟨length, code, List.mem_cons_self, own⟩
    · exact .inr ⟨length, code, List.mem_cons_of_mem _ member, own⟩

end ProgramDraft

/-- A program binds what its codes say, and nothing else. -/
theorem Program.binds_of_chunks {chunks : List Chunk} {p : Program} {name : Text}
    (h : Program.ofChunks chunks = .ok p) (binds : p.Binds name) : ∃ length code, .code length code ∈ chunks ∧ ProgramDraft.IsBinding code name := by
  rw [ofChunks, ProgramDraft.finish_eq_through] at h
  obtain ⟨d, through, ends⟩ := ok_of_bind h
  rw [ProgramDraft.finish] at ends
  split at ends
  · obtain rfl := Except.ok.inj ends
    rcases ProgramDraft.binds_of_through through (.inl binds) with before | known
    · rcases before with before | ⟨_, member, _⟩
      · exact absurd before (not_binds_of_simple (fun _ member => absurd member List.not_mem_nil) name)
      · exact absurd member List.not_mem_nil
    · exact known
  · cases ends

/-- Neither the text nor the code holds a mark that encloses code. -/
def Chunk.Plain : Chunk → Prop
  | text t => t.Plain
  | code _ inner => inner.Plain

/-- What reads as code in a document of plain pieces is a piece of code. A piece that says it is longer than any
source reads as text. -/
theorem Chunk.mem_of_document {list : List Chunk} (plain : ∀ chunk ∈ list, chunk.Plain) {length : Nat} {inner : Text}
    (member : .code length inner ∈ Text.chunks (document list)) : .code length inner ∈ list := by
  have pushed (t : Text) (outside : Marker.opening ∉ t) (rest : Text)
      (member : .code length inner ∈ Text.chunks (t ++ rest)) : .code length inner ∈ Text.chunks rest := by
    induction t with
    | nil => exact member
    | cons c t ih =>
      have apart := not_or.mp (mt List.mem_cons.mpr outside)
      rw [List.cons_append, Text.chunks_other (Ne.symm apart.1), code_mem_push] at member
      exact ih apart.2 member
  have unopened {t : Text} (plain : t.Plain) : Marker.opening ∉ t := fun inside =>
    Bool.noConfusion (Marker.isCodeChar_opening.symm.trans (plain _ inside))
  induction list with
  | nil => rw [document, List.flatMap_nil, Text.chunks] at member; exact absurd member List.not_mem_nil
  | cons chunk list ih =>
    have own := plain chunk List.mem_cons_self
    have others := fun next inside => plain next (List.mem_cons_of_mem _ inside)
    rw [document_cons] at member
    cases chunk with
    | text t => exact List.mem_cons_of_mem _ (ih others (pushed t (unopened own) _ member))
    | code length' inner' =>
      rw [written] at member
      by_cases short : length' < Marker.lengthBound
      · rw [Text.chunks_marker ⟨short, own⟩] at member
        rcases List.mem_cons.mp member with eq | member
        · obtain ⟨rfl, rfl⟩ := Chunk.code.inj eq
          exact List.mem_cons_self
        · exact List.mem_cons_of_mem _ (ih others member)
      · have spelled : marker length' inner' ++ document list =
            Marker.opening :: (Text.ofNat length' ++ ':' :: (inner' ++ Marker.closing :: document list)) := by
          simp only [marker, List.cons_append, List.append_assoc, List.nil_append]
        have unread :
            Marker.read? (Text.ofNat length' ++ ':' :: (inner' ++ Marker.closing :: document list)) = none := by
          have digits := (run_past (p := Char.isDigit) (c := ':') (by decide) (Text.ofNat length')
            (inner' ++ Marker.closing :: document list)).1
          have all_digits := fun c member => Text.isDigit_of_mem_ofNat (n := length') (c := c) member
          rw [List.takeWhile_eq_self_iff.mpr all_digits] at digits
          rw [Marker.read?, digits, Text.natural?_ofNat, Option.filter_some, if_neg (by simpa using short)]
        rw [spelled, Text.chunks_opening, unread, code_mem_push] at member
        have tail : Text.ofNat length' ++ ':' :: (inner' ++ Marker.closing :: document list) =
            (Text.ofNat length' ++ ':' :: (inner' ++ [Marker.closing])) ++ document list := by
          simp only [List.cons_append, List.append_assoc, List.nil_append]
        rw [tail] at member
        refine List.mem_cons_of_mem _ (ih others (pushed _ (fun inside => ?_) _ member))
        rcases List.mem_append.mp inside with digit | inside
        · exact Bool.noConfusion (Marker.isDigit_opening.symm.trans (Text.isDigit_of_mem_ofNat digit))
        · rcases List.mem_cons.mp inside with colon | inside
          · exact absurd colon (by decide)
          · rcases List.mem_append.mp inside with inside | closing
            · exact unopened own inside
            · exact absurd (List.mem_singleton.mp closing) (by decide)

end MarkupTemplates
