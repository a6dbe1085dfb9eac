import MarkupTemplates.Proofs.Program.Codes
import MarkupTemplates.Proofs.Program.Instructions
import MarkupTemplates.Proofs.Program.Nesting

namespace MarkupTemplates

namespace Directive

/-- The block of a directive that has one, if its code stands at byte `offset`. -/
inductive Begins (d : Directive) (offset : Nat) : BlockHead → Prop
  | ifTrue {condition : Expression} : d.kind = .ifTrue → Expression.read d.value = .ok condition →
      Begins d offset (.ifTrue condition)
  | elseIf {condition : Expression} : d.kind = .elseIf → Expression.read d.value = .ok condition →
      Begins d offset (.branch "elseif" (some condition) offset)
  | otherwise : d.kind = .otherwise → Begins d offset (.branch "else" none offset)
  | each {var rest : Text} {list : Expression} : d.kind = .forEach → d.value = var ++ ':' :: rest → ':' ∉ var →
      Expression.read rest = .ok list → Begins d offset (.each var.trim list)

/-- The statements of a directive without a block. Parameters are none. -/
inductive Is (d : Directive) : List Statement → Prop
  | breakIf {condition : Expression} : d.kind = .breakIf → Expression.read d.value = .ok condition →
      Is d [.breakIf condition]
  | set {var rest : Text} {e : Expression} : d.kind = .set → d.value = var ++ '=' :: rest → '=' ∉ var →
      Expression.read rest = .ok e → Is d [.set var.trim e]
  | var : d.kind = .var → Is d []

end Directive

namespace Program

open ProgramDraft (Opens Adds Closes splitCode_append)

theorem expressionCode_reads {word value code : Text} (coded : expressionCode word value = .ok code) :
    ∃ e, Expression.read value = .ok e ∧ code = word ++ ':' :: e.source ∧ Expression.read e.source = .ok e := by
  obtain ⟨e, read, eq⟩ := ok_of_bind coded
  exact ⟨e, read, (Except.ok.inj eq).symm, Expression.read_source read⟩

theorem readAssignment_reads {separator : Char} {value var e : Text}
    (h : readAssignment separator value = .ok (var, e)) :
    ∃ name rest expression, value = name ++ separator :: rest ∧ separator ∉ name ∧ var = name.trim ∧
      Expression.read rest = .ok expression ∧ Expression.read e = .ok expression := by
  unfold readAssignment at h
  split at h
  · cases h
  · next name rest cut =>
    obtain ⟨expression, read, eq⟩ := ok_of_bind h
    obtain ⟨rfl, rfl⟩ := Prod.mk.inj (Except.ok.inj eq)
    exact ⟨name, rest, expression, Text.eq_append_of_cutAt? cut, Scan.cutAt?_without cut, rfl,
      (Expression.read_trim rest).symm.trans read, read⟩

theorem isIdentifier_of_declare {symbols after : SymbolTable} {name : Text} {asParameter : Bool}
    (h : declare symbols name asParameter = .ok after) : name.isIdentifier = true := by
  unfold declare at h
  split at h
  · assumption
  · cases h

/-- The code of a statement asks for the very thing that the directive does. -/
theorem statementCode_reads {d : Directive} {symbols after : SymbolTable} {code : Text}
    (h : statementCode d symbols = .ok (code, after)) :
    (d.kind.hasBlock = true ∧ ∀ offset, ∃ head, d.Begins offset head ∧ Opens code offset head) ∨
      (d.kind.hasBlock = false ∧ ∃ statements, d.Is statements ∧ Adds code statements) := by
  have expression {word : Text}
      (h : (expressionCode word d.value >>= fun text => pure (text, symbols)) = .ok (code, after)) :
      ∃ e, Expression.read d.value = .ok e ∧ code = word ++ ':' :: e.source ∧ Expression.read e.source = .ok e := by
    obtain ⟨text, coded, eq⟩ := ok_of_bind h
    obtain ⟨rfl, _⟩ := Prod.mk.inj (Except.ok.inj eq)
    exact expressionCode_reads coded
  have assignment {word : Text} {separator : Char}
      (h : (readAssignment separator d.value >>= fun read => declare symbols read.1 false >>= fun symbols =>
        pure (word ++ read.1 ++ ':' :: read.2, symbols)) = .ok (code, after)) :
      ∃ name rest e value, d.value = name ++ separator :: rest ∧ separator ∉ name ∧
        Expression.read rest = .ok value ∧
        code = word ++ name.trim ++ ':' :: e ∧ ':' ∉ name.trim ∧ Expression.read e = .ok value := by
    obtain ⟨⟨var, e⟩, read, h⟩ := ok_of_bind h
    obtain ⟨table, declared, eq⟩ := ok_of_bind h
    obtain ⟨rfl, _⟩ := Prod.mk.inj (Except.ok.inj eq)
    obtain ⟨name, rest, value, split, apart, rfl, before, again⟩ := readAssignment_reads read
    exact ⟨name, rest, e, value, split, apart, before, rfl,
      Text.not_mem_of_isIdentifier (isIdentifier_of_declare declared) (by decide), again⟩
  unfold statementCode at h
  cases kind : d.kind <;> rw [kind] at h
  case ifTrue =>
    obtain ⟨e, read, rfl, again⟩ := expression h
    exact .inl ⟨by decide, fun offset => ⟨_, .ifTrue kind read, .ifTrue (splitCode_append _ (by decide)) again⟩⟩
  case elseIf =>
    obtain ⟨e, read, rfl, again⟩ := expression h
    exact .inl ⟨by decide, fun offset => ⟨_, .elseIf kind read, .elseIf (splitCode_append _ (by decide)) again⟩⟩
  case otherwise =>
    obtain ⟨rfl, _⟩ := Prod.mk.inj (Except.ok.inj h)
    exact .inl ⟨by decide, fun offset => ⟨_, .otherwise kind, .otherwise (show _ = (_, []) from rfl)⟩⟩
  case breakIf =>
    obtain ⟨e, read, rfl, again⟩ := expression h
    exact .inr ⟨by decide, _, .breakIf kind read, .breakIf (splitCode_append _ (by decide)) again⟩
  case forEach =>
    obtain ⟨name, rest, e, value, split, apart, read, rfl, inside, again⟩ := assignment h
    refine .inl ⟨by decide, fun offset => ⟨_, .each kind split apart read, .each ?_ inside again⟩⟩
    exact @splitCode_append "foreach" (name.trim ++ ':' :: e) (by decide)
  case set =>
    obtain ⟨name, rest, e, value, split, apart, read, rfl, inside, again⟩ := assignment h
    refine .inr ⟨by decide, _, .set kind split apart read, .set ?_ inside again⟩
    exact @splitCode_append "set" (name.trim ++ ':' :: e) (by decide)
  case var =>
    obtain ⟨table, _, eq⟩ := ok_of_bind h
    obtain ⟨rfl, _⟩ := Prod.mk.inj (Except.ok.inj eq)
    exact .inr ⟨by decide, _, .var kind, .var (@splitCode_append "var" _ (by decide))⟩
  all_goals cases h

theorem endingCode_eq (name : Text) : endingCode name = [] ∨ endingCode name = ("end:" : Text) := by
  unfold endingCode
  split
  · exact .inr rfl
  · exact .inl rfl

/-- The codes of the dialect: of statements, of their ends and of macros. -/
inductive Emits : Text → Prop
  | statement {d : Directive} {symbols after : SymbolTable} {code : Text} :
      dialect.statement d symbols = .ok (code, after) → Emits code
  | ending {name : Text} : dialect.ending name ≠ [] → Emits (dialect.ending name)
  | binding (name : Text) : Emits (dialect.binding name)

/-- Every code of the dialect asks for something that can be read. -/
theorem Emits.read {code : Text} (emits : Emits code) :
    (∀ offset, ∃ head, Opens code offset head) ∨ (∃ statements, Adds code statements) ∨ Closes code := by
  cases emits with
  | statement coded =>
    rcases statementCode_reads coded with ⟨_, opens⟩ | ⟨_, statements, _, adds⟩
    · exact .inl fun offset => (opens offset).imp fun _ both => both.2
    · exact .inr (.inl ⟨statements, adds⟩)
  | ending some_code =>
    refine .inr (.inr ⟨[], ?_⟩)
    show ProgramDraft.splitCode (endingCode _) = _
    rw [(endingCode_eq _).resolve_left some_code]
    rfl
  | binding name => exact .inr (.inl ⟨_, .bind (@splitCode_append "bind" name (by decide))⟩)

end Program

end MarkupTemplates
