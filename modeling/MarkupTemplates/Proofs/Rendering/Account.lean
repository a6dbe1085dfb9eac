import MarkupTemplates.Rendering.Program

namespace MarkupTemplates

/-- What the rendering of a program adds to the output: text of the template itself, or a value to print. -/
inductive Deed where
  | literal (t : Text)
  | shown (v : FormatValue)

/-- A value as formatters see it, if it is no template. -/
def Value.shown {T : Type} (v : Value T) : FormatValue := v.map fun _ => ⟨none, []⟩

/-- The values that names have. Those that are not set are null. -/
abbrev Scope (T : Type) := Text → Value T

def Scope.set {T : Type} (scope : Scope T) (var : Text) (v : Value T) : Scope T :=
  fun name => if var = name then v else scope name

/-- Templates, as far as the rendering of their programs depends on them. -/
structure Realm (T : Type) where
  program : T → Program
  macro? : T → Text → Option T
  same : T → T → Bool

/-- How far a rendering has come: what the names stand for, and what it has done. -/
structure Progress (T : Type) where
  scope : Scope T
  deeds : List Deed

/-- A template was to bind a macro that it does not have. -/
structure UnknownMacro (T : Type) where
  template : T
  name : Text

/-- An account of a rendering tells what is done to the output, whatever the output is and however values are
printed. There is none if templates include each other beyond the bound that is set. -/
abbrev Account (T : Type) (α : Type) := ExceptT (UnknownMacro T) (StateT (Progress T) Option) α

namespace Account

variable {T : Type}

/-- What is said of a template included with these values. -/
abbrev Included (T : Type) := T → Scope T → Option (Except (UnknownMacro T) (List Deed))

def adds (deeds : List Deed) : Account T Unit := fun τ =>
  some (.ok (), { τ with deeds := τ.deeds ++ deeds })

def assign (var : Text) (v : Value T) : Account T Unit := fun τ =>
  some (.ok (), { τ with scope := τ.scope.set var v })

def evaluate (realm : Realm T) (e : Expression) : Account T (Value T) := fun τ =>
  some (.ok (e.eval realm.same τ.scope), τ)

/-- What an included template does is done by the one that includes it. -/
def embed (inner : Included T) (other : T) : Account T Unit := fun τ =>
  (inner other τ.scope).map fun result => match result with
    | .ok deeds => (.ok (), { τ with deeds := τ.deeds ++ deeds })
    | .error e => (.error e, τ)

def unknown (template : T) (name : Text) : Account T Unit := throw ⟨template, name⟩

/-- Goes through values until one of them leaves the loop. -/
def loop (step : Value T → Account T Flow) : List (Value T) → Account T Unit
  | [] => return
  | item :: rest => do
    match ← step item with
    | .next => loop step rest
    | .leave => return

end Account

namespace Statement

variable {T : Type}

mutual

def account (realm : Realm T) (inner : Account.Included T) (t : T) : Statement → Account T Flow
  | .text content => do
    Account.adds [.literal content]
    return .next
  | .value e => do
    match ← Account.evaluate realm e with
    | .template other => Account.embed inner other
    | v => Account.adds [.shown v.shown]
    return .next
  | .branches all => accountBranches realm inner t all
  | .each var list body => do
    let items := (← Account.evaluate realm list).items
    Account.loop (fun item => do
      Account.assign var item
      accountAll realm inner t body) items
    return .next
  | .breakIf condition => do
    return if (← Account.evaluate realm condition).isTrue then .leave else .next
  | .set var e => do
    Account.assign var (← Account.evaluate realm e)
    return .next
  | .bind name => do
    match realm.macro? t name with
    | some found => Account.assign name (.template found)
    | none => Account.unknown t name
    return .next

def accountAll (realm : Realm T) (inner : Account.Included T) (t : T) : List Statement → Account T Flow
  | [] => return .next
  | first :: rest => do
    match ← account realm inner t first with
    | .next => accountAll realm inner t rest
    | .leave => return .leave

def accountBranches (realm : Realm T) (inner : Account.Included T) (t : T) :
    List (Option Expression × List Statement) → Account T Flow
  | [] => return .next
  | (condition, body) :: rest => do
    let holds ← match condition with
      | some condition => pure (← Account.evaluate realm condition).isTrue
      | none => pure true
    if holds then accountAll realm inner t body else accountBranches realm inner t rest

end

end Statement

/-- A statement is part of a program, on its own or inside a block. -/
inductive Program.Has : Program → Statement → Prop
  | here {p : Program} {statement : Statement} : statement ∈ p → Has p statement
  | branch {p body : Program} {all : List (Option Expression × List Statement)} {condition : Option Expression}
      {statement : Statement} :
      .branches all ∈ p → (condition, body) ∈ all → Has body statement → Has p statement
  | each {p body : Program} {var : Text} {list : Expression} {statement : Statement} :
      .each var list body ∈ p → Has body statement → Has p statement

theorem Program.Has.mono {p q : Program} {statement : Statement} (subset : p ⊆ q) (has : Has p statement) :
    Has q statement := by
  cases has with
  | here member => exact .here (subset member)
  | branch member inside has => exact .branch (subset member) inside has
  | each member has => exact .each (subset member) has

/-- The account of a template rendered with these values, where templates may be nested as deep as the bound
says. -/
def Realm.account {T : Type} (realm : Realm T) : Nat → Account.Included T
  | 0, _, _ => none
  | depth + 1, t, scope =>
    (Statement.accountAll realm (realm.account depth) t (realm.program t) ⟨scope, []⟩).map fun (result, τ) =>
      result.map fun _ => τ.deeds

theorem Account.bind_apply {T α β : Type} (m : Account T α) (f : α → Account T β) (τ : Progress T) :
    (m >>= f) τ = (m τ).bind fun (result, τ) => match result with
      | .ok a => f a τ
      | .error e => some (.error e, τ) := by
  show (m τ).bind _ = _
  congr 1
  funext ⟨result, τ⟩
  cases result <;> rfl

theorem Render.bind_apply {α β : Type} (m : Render α) (f : α → Render β) (s : Stage) :
    (m >>= f) s = (m s).bind fun (result, s) => match result with
      | .ok a => f a s
      | .error e => some (.error e, s) := by
  show (m s).bind _ = _
  congr 1
  funext ⟨result, s⟩
  cases result <;> rfl

end MarkupTemplates
