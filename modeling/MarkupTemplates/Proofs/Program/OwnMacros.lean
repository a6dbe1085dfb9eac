import MarkupTemplates.Proofs.ParsedTemplate.Inheritance
import MarkupTemplates.Proofs.Program.Bindings

namespace MarkupTemplates

namespace SymbolTable

variable {table table' : SymbolTable} {name type other found : Text}

theorem types_of_declare (h : table.declare name type = .ok table') (typed : table'.types.get? other = some found) :
    table.types.get? other = some found ∨ (other = name ∧ found = type) := by
  rcases declare_cases h with ⟨_, rfl⟩ | ⟨_, rfl⟩
  · exact .inl typed
  · rw [Dictionary.get?_insert] at typed
    split at typed
    · next same => exact .inr ⟨same.symm, (Option.some.inj typed).symm⟩
    · exact .inl typed

theorem types_of_declared {d : Declaration} (typed : (table.declared d).types.get? other = some found) :
    table.types.get? other = some found ∨ found = d.type := by
  unfold declared at typed
  split at typed
  · next after attempted =>
    unfold attempt at attempted
    split at attempted
    · obtain ⟨between, one, ⟨_, rfl⟩ | ⟨_, rfl⟩⟩ := declareParameter_cases attempted
      · exact (types_of_declare one typed).imp_right And.right
      · exact (types_of_declare one typed).imp_right And.right
    · exact (types_of_declare attempted typed).imp_right And.right
  · exact .inl typed

theorem Keeps.declared (table : SymbolTable) (d : Declaration) : table.Keeps (table.declared d) := by
  unfold SymbolTable.declared
  split
  · next after attempted =>
    unfold attempt at attempted
    split at attempted
    · exact .declareParameter attempted
    · exact .declare attempted
  · exact .refl _

end SymbolTable

namespace Program

theorem declare_objects {table table' : SymbolTable} {name : Text} {asParameter : Bool}
    (h : declare table name asParameter = .ok table') :
    table.Keeps table' ∧ ∀ other, table'.types.get? other = some templateType →
      table.types.get? other = some templateType := by
  rw [declare_declared h]
  refine ⟨.declared table _, fun other typed => (SymbolTable.types_of_declared typed).resolve_right ?_⟩
  show templateType ≠ objectType
  decide

theorem declareAll_objects {table table' : SymbolTable} {names : List Text} (h : declareAll table names = .ok table') :
    table.Keeps table' ∧ ∀ other, table'.types.get? other = some templateType →
      table.types.get? other = some templateType := by
  induction names generalizing table with
  | nil =>
    obtain rfl := Except.ok.inj h
    exact ⟨.refl _, fun _ typed => typed⟩
  | cons name names ih =>
    obtain ⟨between, first, rest⟩ := ok_of_bind h
    obtain ⟨keeps, objects⟩ := declare_objects first
    obtain ⟨keeps', objects'⟩ := ih rest
    exact ⟨keeps.trans keeps', fun other typed => objects other (objects' other typed)⟩

/-- What a statement declares is no macro. -/
theorem statementCode_objects {directive : Directive} {symbols after : SymbolTable} {code : Text}
    (h : statementCode directive symbols = .ok (code, after)) :
    symbols.Keeps after ∧ ∀ name, after.types.get? name = some templateType →
      symbols.types.get? name = some templateType := by
  cases coded_of_statement h with
  | condition => exact ⟨.refl _, fun _ typed => typed⟩
  | otherwise => exact ⟨.refl _, fun _ typed => typed⟩
  | assignment _ _ declared => exact declare_objects declared
  | parameters declared => exact declareAll_objects declared

theorem wordOf_of_binding {code name : Text} (binding : ProgramDraft.IsBinding code name) :
    wordOf code = ("bind" : Text) := congrArg Prod.fst binding

/-- No code of a statement binds a macro, and no code that ends one. -/
theorem not_binding_of_statement {directive : Directive} {symbols after : SymbolTable} {code name : Text}
    (h : statementCode directive symbols = .ok (code, after)) : ¬ ProgramDraft.IsBinding code name := by
  intro binding
  obtain ⟨_, rest, rfl, _⟩ := statementCode_form h
  have word := @wordOf_append directive.kind.defaultName rest (by cases directive.kind <;> decide)
  rw [wordOf_of_binding binding] at word
  revert word
  cases directive.kind <;> decide

theorem not_binding_of_ending {ended name : Text} : ¬ ProgramDraft.IsBinding (endingCode ended) name := by
  intro binding
  have word := wordOf_of_binding binding
  unfold endingCode at word
  split at word <;> exact absurd word (by decide)

end Program

/-- Every name that stands for a template is that of a macro. -/
theorem Walk.Runs.typed_macros {Compiled : Type} {job : Job Compiled} {w w' : Walk Compiled}
    {agenda agenda' : List Duty} {requests : List Request} (demo : job.dialect = Program.dialect)
    (run : Runs job w agenda requests w' agenda')
    (before : ∀ name, w.symbols.types.get? name = some templateType → (w.macros.get? name).isSome = true) :
    ∀ name, w'.symbols.types.get? name = some templateType → (w'.macros.get? name).isSome = true := by
  induction run with
  | done => exact before
  | step advanced _ ih =>
    refine ih fun name typed => ?_
    cases advance_naming advanced with
    | same symbols macros =>
      rw [macros]
      rw [symbols] at typed
      exact before name typed
    | statement coded macros =>
      rw [demo] at coded
      rw [macros]
      exact before name ((Program.statementCode_objects coded).2 name typed)
    | defined found declared parsed macros =>
      rw [macros, Dictionary.get?_insert]
      split
      · rfl
      · next other =>
        rcases SymbolTable.types_of_declare declared typed with typed | ⟨same, _⟩
        · exact before name typed
        · exact absurd same.symm other

/-- Names keep their types from each part to the next. -/
theorem pieces?_keeps {source : Text} {symbols after : SymbolTable} {parts : List Part} {list : List Chunk}
    (h : pieces? Program.dialect source symbols parts = some (list, after)) : symbols.Keeps after := by
  induction parts generalizing symbols list with
  | nil =>
    obtain ⟨_, rfl⟩ := Prod.mk.inj (Option.some.inj h)
    exact .refl _
  | cons part rest ih =>
    obtain ⟨piece, others, between, one, later, _⟩ := pieces?_cons h
    refine SymbolTable.Keeps.trans ?_ (ih later)
    cases part with
    | statement length directive =>
      rw [Part.piece?] at one
      split at one
      · next coded =>
        obtain ⟨_, rfl⟩ := Prod.mk.inj (Option.some.inj one)
        exact (Program.statementCode_objects coded).1
      · cases one
    | binding length directive value =>
      obtain ⟨head, _, declared, _⟩ := Part.piece_binding one
      exact .declare declared
    | _ =>
      obtain ⟨_, rfl⟩ := Prod.mk.inj (Option.some.inj one)
      exact .refl _

/-- Code that binds a macro is there only where one is declared. -/
theorem typed_of_binding {source : Text} {symbols after : SymbolTable} {parts : List Part} {list : List Chunk}
    (h : pieces? Program.dialect source symbols parts = some (list, after)) {length : Nat} {code name : Text}
    (member : .code length code ∈ list) (binding : ProgramDraft.IsBinding code name) :
    after.types.get? name = some templateType := by
  induction parts generalizing symbols list with
  | nil =>
    obtain ⟨rfl, _⟩ := Prod.mk.inj (Option.some.inj h)
    exact absurd member List.not_mem_nil
  | cons part rest ih =>
    obtain ⟨piece, others, between, one, later, rfl⟩ := pieces?_cons h
    rcases List.mem_cons.mp member with rfl | member
    · cases part with
      | binding length directive value =>
        obtain ⟨head, _, declared, eq⟩ := Part.piece_binding one
        obtain ⟨_, rfl⟩ := Chunk.code.inj eq
        have own : head.name = name :=
          (@Program.args_append "bind" head.name (by decide)).symm.trans (congrArg Prod.snd binding)
        exact own ▸ pieces?_keeps later _ _ (SymbolTable.declare_type declared)
      | statement length directive =>
        rw [Part.piece?] at one
        split at one
        · next coded =>
          obtain ⟨eq, _⟩ := Prod.mk.inj (Option.some.inj one)
          obtain ⟨_, rfl⟩ := Chunk.code.inj eq
          exact absurd binding (Program.not_binding_of_statement coded)
        · cases one
      | ending length ended =>
        obtain ⟨eq, _⟩ := Prod.mk.inj (Option.some.inj one)
        obtain ⟨_, rfl⟩ := Chunk.code.inj eq
        exact absurd binding Program.not_binding_of_ending
      | closing ended =>
        obtain ⟨eq, _⟩ := Prod.mk.inj (Option.some.inj one)
        split at eq
        · cases eq
        · obtain ⟨_, rfl⟩ := Chunk.code.inj eq
          exact absurd binding Program.not_binding_of_ending
      | _ => cases (Prod.mk.inj (Option.some.inj one)).1
    · exact ih later member

namespace Parser

variable {Compiled : Type} {parser : Parser Compiled} {stream : Bool} {depth : Nat} {resource : Resource}
  {events : List Event} {template : ParsedTemplate Compiled}

/-- The program of an unmarked source binds macros of the template itself, and no others. -/
theorem binds_own (demo : parser.dialect = Program.dialect) (unmarked : resource.source.Unmarked)
    (parsed : parser.parseWithin stream depth resource = (events, .ok template)) {p : Program} {name : Text}
    (program : Program.ofChunks template.chunks = .ok p) (binds : p.Binds name) :
    (Dictionary.get? template.macros name).isSome = true := by
  obtain ⟨length, code, member, binding⟩ := Program.binds_of_chunks program binds
  have written := parser.parseWithin_written parsed
  rw [demo, written?_eq_pieces] at written
  obtain ⟨⟨list, symbols⟩, pieces, eq⟩ := Option.map_eq_some_iff.mp written
  obtain ⟨document, rfl⟩ := Prod.mk.inj eq
  have values (own : Nat) (directive : Directive) (found : .statement own directive ∈ layout parser.names
      resource.source 0 resource.source.byteSize none resource.source.nodes) : directive.value.Plain :=
    plain_of_statement unmarked.plain _ unmarked.values_throughout own directive found
  have plain : ∀ chunk ∈ list, chunk.Plain := by
    intro chunk inside
    obtain ⟨part, found, _, _, piece⟩ := exists_part_of_mem_pieces pieces inside
    cases chunk with
    | text t => exact unmarked.plain.of_subset (text_of_piece piece)
    | code length inner => exact (code_of_piece piece).2 fun own directive eq => values own directive (eq ▸ found)
  rw [ParsedTemplate.chunks, ← document] at member
  have typed := typed_of_binding pieces (Chunk.mem_of_document plain member) binding
  obtain ⟨below, w, rfl, walked, rfl⟩ := parseWithin_ok parsed
  exact (Walk.siblings_runs walked []).typed_macros demo (fun name typed => by cases typed) name typed

end Parser

end MarkupTemplates
