import Mathlib.Data.List.Forall2
import Mathlib.Data.Option.Basic
import MarkupTemplates.Proofs.Rendering.Account

namespace MarkupTemplates

/-- Two results of one kind: both answers, or both failures. -/
inductive Matched {ε ε' α β : Type} (failure : ε → ε' → Prop) (success : α → β → Prop) :
    Except ε α → Except ε' β → Prop
  | ok {a : α} {b : β} : success a b → Matched failure success (.ok a) (.ok b)
  | error {e : ε} {e' : ε'} : failure e e' → Matched failure success (.error e) (.error e')

namespace Value

variable {A B : Type}

/-- Templates that are related, or the same value of another kind. -/
inductive Alike (rel : A → B → Prop) : Value A → Value B → Prop
  | template {a : A} {b : B} : rel a b → Alike rel (.template a) (.template b)
  | plain (v : Value Empty) : Alike rel (v.map Empty.elim) (v.map Empty.elim)

theorem exists_plain {v : Value A} (plain : ∀ t, v ≠ .template t) : ∃ w : Value Empty, v = w.map Empty.elim := by
  cases v with
  | null => exact ⟨.null, rfl⟩
  | bool b => exact ⟨.bool b, rfl⟩
  | byte n => exact ⟨.byte n, rfl⟩
  | char c => exact ⟨.char c, rfl⟩
  | short n => exact ⟨.short n, rfl⟩
  | int n => exact ⟨.int n, rfl⟩
  | long n => exact ⟨.long n, rfl⟩
  | float b => exact ⟨.float b, rfl⟩
  | double b => exact ⟨.double b, rfl⟩
  | number n => exact ⟨.number n, rfl⟩
  | date d => exact ⟨.date d, rfl⟩
  | bytes b => exact ⟨.bytes b, rfl⟩
  | str t => exact ⟨.str t, rfl⟩
  | template t => exact absurd rfl (plain t)
  | other o => exact ⟨.other o, rfl⟩

theorem map_ne_template (v : Value Empty) (t : A) : v.map Empty.elim ≠ .template t := by
  intro eq
  cases v with
  | template none => exact none.elim
  | _ => cases eq

theorem number?_map (f : A → B) (v : Value A) : (v.map f).number? = v.number? := by
  cases v with
  | number n => cases n <;> rfl
  | _ => rfl

theorem isTrue_map (f : A → B) (v : Value A) : (v.map f).isTrue = v.isTrue := by
  cases v with
  | number n => cases n <;> rfl
  | _ => rfl

theorem items_map (f : A → B) (v : Value A) : (v.map f).items = v.items.map (·.map f) := by
  have counted (n : Binary) : ((List.range n.truncated.toNat).map fun (i : Nat) => (long (i + 1) : Value B)) =
      ((List.range n.truncated.toNat).map fun (i : Nat) => (long (i + 1) : Value A)).map (·.map f) := by
    rw [List.map_map]
    rfl
  cases v with
  | null => rfl
  | str t =>
    show (Text.parts ',' t).map _ = ((Text.parts ',' t).map _).map _
    rw [List.map_map]
    rfl
  | byte n => exact counted _
  | short n => exact counted _
  | int n => exact counted _
  | long n => exact counted _
  | float n => exact counted _
  | double n => exact counted _
  | number n => cases n <;> exact counted _
  | _ => rfl

theorem equals_plain (same : A → A → Bool) (v w : Value Empty) :
    (v.map Empty.elim).equals same (w.map Empty.elim) = v.equals (fun _ _ => false) w := by
  cases v with
  | template t => exact t.elim
  | _ => cases w with
    | template t => exact t.elim
    | _ => rfl

theorem order?_plain (same : A → A → Bool) (v w : Value Empty) :
    (v.map Empty.elim).order? same (w.map Empty.elim) = v.order? (fun _ _ => false) w := by
  rw [order?.eq_def, order?.eq_def, number?_map, number?_map, equals_plain]
  cases v with
  | template t => exact t.elim
  | str s => cases w with
    | template t => exact t.elim
    | _ => rfl
  | _ => rfl

variable {rel : A → B → Prop} {v w : Value A} {v' w' : Value B}

theorem Alike.isTrue (alike : Alike rel v v') : v.isTrue = v'.isTrue := by
  cases alike with
  | template => rfl
  | plain v => rw [isTrue_map, isTrue_map]

theorem Alike.items (alike : Alike rel v v') : List.Forall₂ (Alike rel) v.items v'.items := by
  cases alike with
  | template related => exact .cons (.template related) .nil
  | plain v =>
    rw [items_map, items_map, List.forall₂_map_left_iff, List.forall₂_map_right_iff, List.forall₂_same]
    exact fun item _ => .plain item

/-- Values that are alike compare alike if templates do. -/
theorem Alike.order? {same : A → A → Bool} {same' : B → B → Bool}
    (agree : ∀ a b a' b', rel a b → rel a' b' → same a a' = same' b b')
    (one : Alike rel v v') (two : Alike rel w w') : v.order? same w = v'.order? same' w' := by
  cases one with
  | template related =>
    cases two with
    | template related' =>
      show (if same _ _ = true then some _ else none) = if same' _ _ = true then some _ else none
      rw [agree _ _ _ _ related related']
    | plain w =>
      cases w with
      | template t => exact t.elim
      | number n => cases n <;> rfl
      | _ => rfl
  | plain v =>
    cases two with
    | template related =>
      cases v with
      | template t => exact t.elim
      | number n => cases n <;> rfl
      | _ => rfl
    | plain w => rw [order?_plain, order?_plain]

end Value

def Operand.names : Operand → List Text
  | literal _ => []
  | name n => [n]
  | not o => o.names

/-- The names in an expression. -/
def Expression.names (e : Expression) : List Text :=
  e.left.names ++ match e.right with
    | some (_, right) => right.names
    | none => []

/-- The statement itself has the name in it, without regard to what is in its block. -/
def Statement.Mentions (name : Text) : Statement → Prop
  | .text _ => False
  | .value e => name ∈ e.names
  | .branches all => ∃ e body, (some e, body) ∈ all ∧ name ∈ e.names
  | .each var list _ => name = var ∨ name ∈ list.names
  | .breakIf condition => name ∈ condition.names
  | .set var e => name = var ∨ name ∈ e.names
  | .bind found => name = found

section

variable {A B : Type} {rel : A → B → Prop}

theorem Operand.eval_alike {scope : Scope A} {scope' : Scope B} (o : Operand)
    (alike : ∀ name ∈ o.names, (scope name).Alike rel (scope' name)) :
    (o.eval scope).Alike rel (o.eval scope') := by
  cases o with
  | literal l =>
    cases l with
    | null => exact .plain .null
    | bool b => exact .plain (.bool b)
    | str t => exact .plain (.str t)
    | long n => exact .plain (.long n)
  | name n => exact alike n List.mem_cons_self
  | not o =>
    have inner := Operand.eval_alike o alike
    rw [Operand.eval, Operand.eval, inner.isTrue]
    exact .plain (.bool _)

/-- An expression comes to values that are alike if its names stand for such. -/
theorem Expression.eval_alike {same : A → A → Bool} {same' : B → B → Bool}
    (agree : ∀ a b a' b', rel a b → rel a' b' → same a a' = same' b b') {scope : Scope A} {scope' : Scope B}
    (e : Expression) (alike : ∀ name ∈ e.names, (scope name).Alike rel (scope' name)) :
    (e.eval same scope).Alike rel (e.eval same' scope') := by
  obtain ⟨source, left, right⟩ := e
  have first := left.eval_alike fun name member => alike name (List.mem_append_left _ member)
  cases right with
  | none => exact first
  | some comparison =>
    obtain ⟨comparison, right⟩ := comparison
    have second := right.eval_alike fun name member => alike name (List.mem_append_right _ member)
    rw [Expression.eval, Expression.eval]
    simp only [first.order? agree second]
    exact .plain (.bool _)

/-- Renderings that have come equally far, except for the values of hidden names. -/
structure Progress.Alike (rel : A → B → Prop) (hidden : Text → Prop) (τ : Progress A) (σ : Progress B) : Prop where
  scope : ∀ name, ¬ hidden name → (τ.scope name).Alike rel (σ.scope name)
  deeds : τ.deeds = σ.deeds

/-- Related templates have the same program, which mentions no hidden name and binds related macros. -/
structure Kinship (one : Realm A) (other : Realm B) (rel : A → B → Prop) (hidden : Text → Prop) : Prop where
  program : ∀ a b, rel a b → one.program a = other.program b
  same : ∀ a b a' b', rel a b → rel a' b' → one.same a a' = other.same b b'
  visible : ∀ a b, rel a b → ∀ statement, (one.program a).Has statement → ∀ name, statement.Mentions name →
    ¬ hidden name
  macros : ∀ a b, rel a b → ∀ name, (one.program a).Has (.bind name) →
    Option.Rel rel (one.macro? a name) (other.macro? b name)

/-- Related templates lack a macro that their program binds. -/
def Lacking (one : Realm A) (rel : A → B → Prop) (e : UnknownMacro A) (f : UnknownMacro B) : Prop :=
  rel e.template f.template ∧ e.name = f.name ∧ (one.program e.template).Has (.bind e.name) ∧
    one.macro? e.template e.name = none

/-- Accounts that tell the same of renderings that have come equally far. -/
def Account.Matches (rel : A → B → Prop) (hidden : Text → Prop) (failure : UnknownMacro A → UnknownMacro B → Prop)
    {α β : Type} (post : α → β → Prop) (one : Account A α) (other : Account B β) : Prop :=
  ∀ τ σ, Progress.Alike rel hidden τ σ → Option.Rel (fun x y =>
    Matched failure (fun a b => post a b ∧ Progress.Alike rel hidden x.2 y.2) x.1 y.1) (one τ) (other σ)

/-- The same is told of related templates that are included with values that are alike. -/
def Account.IncludedAlike (rel : A → B → Prop) (hidden : Text → Prop)
    (failure : UnknownMacro A → UnknownMacro B → Prop) (one : Account.Included A) (other : Account.Included B) : Prop :=
  ∀ a b, rel a b → ∀ scope scope', (∀ name, ¬ hidden name → (scope name).Alike rel (scope' name)) →
    Option.Rel (Matched failure Eq) (one a scope) (other b scope')

variable {hidden : Text → Prop} {failure : UnknownMacro A → UnknownMacro B → Prop} {α β γ δ : Type}

namespace Account.Matches

theorem pure {post : α → β → Prop} {a : α} {b : β} (holds : post a b) :
    Matches rel hidden failure post (Pure.pure a) (Pure.pure b) :=
  fun _ _ alike => .some (.ok ⟨holds, alike⟩)

theorem bind {post : α → β → Prop} {post' : γ → δ → Prop} {one : Account A α} {other : Account B β}
    {next : α → Account A γ} {next' : β → Account B δ} (first : Matches rel hidden failure post one other)
    (rest : ∀ a b, post a b → Matches rel hidden failure post' (next a) (next' b)) :
    Matches rel hidden failure post' (one >>= next) (other >>= next') := by
  intro τ σ alike
  have begun := first τ σ alike
  rw [Account.bind_apply, Account.bind_apply]
  generalize one τ = x at begun
  generalize other σ = y at begun
  cases begun with
  | none => exact .none
  | @some x y matched =>
    obtain ⟨result, τ'⟩ := x
    obtain ⟨result', σ'⟩ := y
    cases matched with
    | ok holds => exact rest _ _ holds.1 τ' σ' holds.2
    | error fails => exact .some (.error fails)

theorem adds (deeds : List Deed) :
    Matches rel hidden failure (fun _ _ => True) (Account.adds deeds : Account A Unit) (Account.adds deeds) :=
  fun _ _ alike => .some (.ok ⟨trivial, alike.scope, congrArg (· ++ deeds) alike.deeds⟩)

theorem assign {var : Text} {v : Value A} {w : Value B} (values : v.Alike rel w) :
    Matches rel hidden failure (fun _ _ => True) (Account.assign var v) (Account.assign var w) := by
  refine fun τ σ alike => .some (.ok ⟨trivial, fun name visible => ?_, alike.deeds⟩)
  show Value.Alike rel (if var = name then v else τ.scope name) (if var = name then w else σ.scope name)
  by_cases same : var = name
  · rw [if_pos same, if_pos same]
    exact values
  · rw [if_neg same, if_neg same]
    exact alike.scope name visible

theorem evaluate {one : Realm A} {other : Realm B} (kin : Kinship one other rel hidden) {e : Expression}
    (visible : ∀ name ∈ e.names, ¬ hidden name) :
    Matches rel hidden failure (Value.Alike rel) (Account.evaluate one e) (Account.evaluate other e) :=
  fun _ _ alike => .some (.ok
    ⟨e.eval_alike kin.same fun name member => alike.scope name (visible name member), alike⟩)

theorem embed {inner : Account.Included A} {inner' : Account.Included B}
    (included : Account.IncludedAlike rel hidden failure inner inner') {a : A} {b : B} (related : rel a b) :
    Matches rel hidden failure (fun _ _ => True) (Account.embed inner a) (Account.embed inner' b) := by
  intro τ σ alike
  have below := included a b related τ.scope σ.scope alike.scope
  rw [Account.embed, Account.embed]
  generalize inner a τ.scope = x at below
  generalize inner' b σ.scope = y at below
  cases below with
  | none => exact .none
  | some matched =>
    cases matched with
    | ok same => exact .some (.ok ⟨trivial, alike.scope, by rw [alike.deeds, same]⟩)
    | error fails => exact .some (.error fails)

theorem loop {step : Value A → Account A Flow} {step' : Value B → Account B Flow}
    (one : ∀ v w, v.Alike rel w → Matches rel hidden failure Eq (step v) (step' w)) {items : List (Value A)}
    {items' : List (Value B)} (alike : List.Forall₂ (Value.Alike rel) items items') :
    Matches rel hidden failure (fun _ _ => True) (Account.loop step items) (Account.loop step' items') := by
  induction alike with
  | nil => exact .pure trivial
  | cons first _ ih =>
    refine (one _ _ first).bind fun flow flow' same => ?_
    subst same
    cases flow with
    | next => exact ih
    | leave => exact .pure trivial

end Account.Matches

section

variable {one : Realm A} {other : Realm B} {inner : Account.Included A} {inner' : Account.Included B}

mutual

theorem matches_statement (kin : Kinship one other rel hidden)
    (included : Account.IncludedAlike rel hidden (Lacking one rel) inner inner') {a : A} {b : B} (related : rel a b) :
    (statement : Statement) → (∀ part, Program.Has [statement] part → (one.program a).Has part) →
      Account.Matches rel hidden (Lacking one rel) Eq (statement.account one inner a)
        (statement.account other inner' b)
  | .text content, _ => by
    rw [Statement.account, Statement.account]
    exact (Account.Matches.adds _).bind fun _ _ _ => .pure rfl
  | .value e, within => by
    rw [Statement.account, Statement.account]
    have visible := kin.visible a b related _ (within _ (.here List.mem_cons_self))
    refine (Account.Matches.evaluate kin visible).bind fun v w alike => ?_
    cases alike with
    | template known => exact (Account.Matches.embed included known).bind fun _ _ _ => .pure rfl
    | plain v =>
      cases v with
      | template t => exact t.elim
      | _ => exact (Account.Matches.adds _).bind fun _ _ _ => .pure rfl
  | .branches all, within => by
    rw [Statement.account, Statement.account]
    refine matches_branches kin included related all (fun e body member name inside => ?_)
      fun condition body member part has => within part (.branch List.mem_cons_self member has)
    exact kin.visible a b related _ (within _ (.here List.mem_cons_self)) name ⟨e, body, member, inside⟩
  | .each var list body, within => by
    rw [Statement.account, Statement.account]
    have visible := kin.visible a b related _ (within _ (.here List.mem_cons_self))
    refine (Account.Matches.evaluate kin fun name member => visible name (.inr member)).bind fun v w alike => ?_
    refine (Account.Matches.loop (fun item item' known => ?_) alike.items).bind fun _ _ _ => .pure rfl
    refine (Account.Matches.assign known).bind fun _ _ _ => ?_
    exact matches_all kin included related body fun part has => within part (.each List.mem_cons_self has)
  | .breakIf condition, within => by
    rw [Statement.account, Statement.account]
    have visible := kin.visible a b related _ (within _ (.here List.mem_cons_self))
    refine (Account.Matches.evaluate kin visible).bind fun v w alike => ?_
    rw [alike.isTrue]
    exact .pure rfl
  | .set var e, within => by
    rw [Statement.account, Statement.account]
    have visible := kin.visible a b related _ (within _ (.here List.mem_cons_self))
    refine (Account.Matches.evaluate kin fun name member => visible name (.inr member)).bind fun v w alike => ?_
    exact (Account.Matches.assign alike).bind fun _ _ _ => .pure rfl
  | .bind name, within => by
    rw [Statement.account, Statement.account]
    have has := within _ (.here List.mem_cons_self)
    have macros := kin.macros a b related name has
    cases found : one.macro? a name with
    | none =>
      rw [found] at macros
      cases found' : other.macro? b name with
      | none => exact fun τ σ alike => .some (.error ⟨related, rfl, has, found⟩)
      | some known => rw [found'] at macros; cases macros
    | some known =>
      rw [found] at macros
      cases found' : other.macro? b name with
      | none => rw [found'] at macros; cases macros
      | some known' =>
        rw [found'] at macros
        cases macros with
        | some below => exact (Account.Matches.assign (.template below)).bind fun _ _ _ => .pure rfl

theorem matches_all (kin : Kinship one other rel hidden)
    (included : Account.IncludedAlike rel hidden (Lacking one rel) inner inner') {a : A} {b : B} (related : rel a b) :
    (p : List Statement) → (∀ part, Program.Has p part → (one.program a).Has part) →
      Account.Matches rel hidden (Lacking one rel) Eq (Statement.accountAll one inner a p)
        (Statement.accountAll other inner' b p)
  | [], _ => by
    rw [Statement.accountAll, Statement.accountAll]
    exact .pure rfl
  | first :: rest, within => by
    rw [Statement.accountAll, Statement.accountAll]
    have begun := matches_statement kin included related first fun part has =>
      within part (has.mono (List.cons_subset_cons first (List.nil_subset rest)))
    have others := matches_all kin included related rest fun part has =>
      within part (has.mono (List.subset_cons_self first rest))
    refine begun.bind fun flow flow' same => ?_
    subst same
    cases flow with
    | next => exact others
    | leave => exact .pure rfl

theorem matches_branches (kin : Kinship one other rel hidden)
    (included : Account.IncludedAlike rel hidden (Lacking one rel) inner inner') {a : A} {b : B} (related : rel a b) :
    (all : List (Option Expression × List Statement)) →
      (∀ e body, (some e, body) ∈ all → ∀ name ∈ e.names, ¬ hidden name) →
      (∀ condition body, (condition, body) ∈ all → ∀ part, Program.Has body part → (one.program a).Has part) →
      Account.Matches rel hidden (Lacking one rel) Eq (Statement.accountBranches one inner a all)
        (Statement.accountBranches other inner' b all)
  | [], _, _ => by
    rw [Statement.accountBranches, Statement.accountBranches]
    exact .pure rfl
  | (condition, body) :: rest, visible, within => by
    have begun := matches_all kin included related body (within condition body List.mem_cons_self)
    have others := matches_branches kin included related rest
      (fun e body member => visible e body (List.mem_cons_of_mem _ member))
      fun condition body member => within condition body (List.mem_cons_of_mem _ member)
    have chosen (holds : Bool) : Account.Matches rel hidden (Lacking one rel) Eq
        (if holds = true then Statement.accountAll one inner a body else Statement.accountBranches one inner a rest)
        (if holds = true then Statement.accountAll other inner' b body
          else Statement.accountBranches other inner' b rest) := by
      cases holds with
      | true => exact begun
      | false => exact others
    rw [Statement.accountBranches.eq_def, Statement.accountBranches.eq_def]
    cases condition with
    | some condition =>
      refine (Account.Matches.evaluate kin (visible condition body List.mem_cons_self)).bind fun v w alike => ?_
      rw [alike.isTrue]
      exact chosen w.isTrue
    | none => exact chosen true

end

/-- The same is told of related templates, at any depth, if they are given values that are alike. -/
theorem Kinship.included (kin : Kinship one other rel hidden) (depth : Nat) :
    Account.IncludedAlike rel hidden (Lacking one rel) (one.account depth) (other.account depth) := by
  induction depth with
  | zero => exact fun _ _ _ _ _ _ => .none
  | succ depth ih =>
    intro a b related scope scope' alike
    have told := matches_all kin ih related (one.program a) (fun _ has => has) ⟨scope, []⟩ ⟨scope', []⟩ ⟨alike, rfl⟩
    rw [Realm.account, Realm.account, ← kin.program a b related]
    generalize Statement.accountAll one _ a _ _ = x at told
    generalize Statement.accountAll other _ b _ _ = y at told
    cases told with
    | none => exact .none
    | @some x y matched =>
      obtain ⟨result, τ⟩ := x
      obtain ⟨result', σ⟩ := y
      cases matched with
      | ok holds => exact .some (.ok holds.2.deeds)
      | error fails => exact .some (.error fails)

end

end

end MarkupTemplates
