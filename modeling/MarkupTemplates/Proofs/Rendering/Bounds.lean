import MarkupTemplates.Proofs.Rendering.Account

namespace MarkupTemplates

/-- An answer that stays the same once it is given is one and the same wherever it is given. -/
theorem exists_settled {α : Type} [nonempty : Nonempty α] {answer : Nat → Option α}
    (step : ∀ depth a, answer depth = some a → answer (depth + 1) = some a) :
    ∃ (ends : Nat → Bool) (a : α), ∀ depth, answer depth = if ends depth then some a else none := by
  have stays {depth depth' : Nat} (less : depth ≤ depth') {a : α} (given : answer depth = some a) :
      answer depth' = some a := by
    induction less with
    | refl => exact given
    | step _ ih => exact step _ a ih
  by_cases finite : ∃ depth a, answer depth = some a
  · obtain ⟨room, a, given⟩ := finite
    refine ⟨fun depth => (answer depth).isSome, a, fun depth => ?_⟩
    by_cases own : (answer depth).isSome = true
    · obtain ⟨b, one⟩ := Option.isSome_iff_exists.mp own
      have here := stays (Nat.le_max_left depth room) one
      have there := stays (Nat.le_max_right depth room) given
      exact (one.trans (here.symm.trans there)).trans (if_pos own).symm
    · exact (Option.not_isSome_iff_eq_none.mp own).trans (if_neg own).symm
  · obtain ⟨a⟩ := nonempty
    refine ⟨fun _ => false, a, fun depth => ?_⟩
    exact Option.eq_none_iff_forall_ne_some.mpr fun b given => finite ⟨depth, b, given⟩

variable {T α β : Type}

/-- Wherever the one account tells something, the other tells the same. -/
def Account.Extended (one other : Account T α) : Prop := ∀ τ told, one τ = some told → other τ = some told

/-- Wherever something is told of a template by the one, the same is told by the other. -/
def Account.IncludedExtended (inner inner' : Account.Included T) : Prop :=
  ∀ t scope told, inner t scope = some told → inner' t scope = some told

namespace Account.Extended

variable {one other : Account T α} {inner inner' : Account.Included T}

theorem refl (one : Account T α) : Extended one one := fun _ _ known => known

theorem bind {next next' : α → Account T β} (first : Extended one other)
    (rest : ∀ a, Extended (next a) (next' a)) : Extended (one >>= next) (other >>= next') := by
  intro τ told known
  rw [Account.bind_apply] at known ⊢
  obtain ⟨done, begun, known⟩ := Option.bind_eq_some_iff.mp known
  rw [first τ done begun, Option.bind_some]
  obtain ⟨result, τ'⟩ := done
  cases result with
  | ok a => exact rest a τ' told known
  | error e => exact known

theorem embed (extended : IncludedExtended inner inner') (t : T) :
    Extended (Account.embed inner t) (Account.embed inner' t) := by
  intro τ told known
  rw [Account.embed] at known ⊢
  obtain ⟨result, below, eq⟩ := Option.map_eq_some_iff.mp known
  rw [extended t τ.scope result below, ← eq, Option.map_some]

theorem loop {step step' : Value T → Account T Flow} (each : ∀ item, Extended (step item) (step' item))
    (items : List (Value T)) : Extended (Account.loop step items) (Account.loop step' items) := by
  induction items with
  | nil => exact refl _
  | cons item items ih =>
    refine (each item).bind fun flow => ?_
    cases flow with
    | next => exact ih
    | leave => exact refl _

end Account.Extended

section

variable {realm : Realm T} {inner inner' : Account.Included T} {t : T}

mutual

theorem extended_statement (extended : Account.IncludedExtended inner inner') : (statement : Statement) →
    Account.Extended (statement.account realm inner t) (statement.account realm inner' t)
  | .text _ => by
    rw [Statement.account, Statement.account]
    exact .refl _
  | .value e => by
    rw [Statement.account, Statement.account]
    refine (Account.Extended.refl _).bind fun v => ?_
    cases v with
    | template other => exact (Account.Extended.embed extended other).bind fun _ => .refl _
    | _ => exact .refl _
  | .branches all => by
    rw [Statement.account, Statement.account]
    exact extended_branches extended all
  | .each var list body => by
    rw [Statement.account, Statement.account]
    refine (Account.Extended.refl _).bind fun v => ?_
    refine (Account.Extended.loop (fun item => ?_) v.items).bind fun _ => .refl _
    exact (Account.Extended.refl _).bind fun _ => extended_all extended body
  | .breakIf _ => by
    rw [Statement.account, Statement.account]
    exact .refl _
  | .set _ _ => by
    rw [Statement.account, Statement.account]
    exact .refl _
  | .bind _ => by
    rw [Statement.account, Statement.account]
    exact .refl _

theorem extended_all (extended : Account.IncludedExtended inner inner') : (p : List Statement) →
    Account.Extended (Statement.accountAll realm inner t p) (Statement.accountAll realm inner' t p)
  | [] => by
    rw [Statement.accountAll, Statement.accountAll]
    exact .refl _
  | first :: rest => by
    rw [Statement.accountAll, Statement.accountAll]
    refine (extended_statement extended first).bind fun flow => ?_
    cases flow with
    | next => exact extended_all extended rest
    | leave => exact .refl _

theorem extended_branches (extended : Account.IncludedExtended inner inner') :
    (all : List (Option Expression × List Statement)) →
      Account.Extended (Statement.accountBranches realm inner t all) (Statement.accountBranches realm inner' t all)
  | [] => by
    rw [Statement.accountBranches, Statement.accountBranches]
    exact .refl _
  | (condition, body) :: rest => by
    have begun := extended_all extended body
    have others := extended_branches extended rest
    have chosen (holds : Bool) : Account.Extended
        (if holds = true then Statement.accountAll realm inner t body else Statement.accountBranches realm inner t rest)
        (if holds = true then Statement.accountAll realm inner' t body
          else Statement.accountBranches realm inner' t rest) := by
      cases holds with
      | true => exact begun
      | false => exact others
    rw [Statement.accountBranches.eq_def, Statement.accountBranches.eq_def]
    cases condition with
    | some condition => exact (Account.Extended.refl _).bind fun v => chosen v.isTrue
    | none => exact chosen true

end

end

/-- With more room for templates in each other nothing else is told than what has been told with less. -/
theorem Realm.account_succ (realm : Realm T) (depth : Nat) :
    Account.IncludedExtended (realm.account depth) (realm.account (depth + 1)) := by
  induction depth with
  | zero => exact fun _ _ _ known => absurd known nofun
  | succ depth ih =>
    intro t scope told known
    rw [account] at known ⊢
    obtain ⟨done, acted, eq⟩ := Option.map_eq_some_iff.mp known
    rw [extended_all ih (realm.program t) _ done acted, Option.map_some, eq]

end MarkupTemplates
