import MarkupTemplates.Expression
import MarkupTemplates.Proofs.Markup.Comments

namespace MarkupTemplates

theorem Text.after?_eq_none_iff {head t : Text} : Text.after? head t = none ↔ ¬ head <+: t := by
  constructor
  · rintro none ⟨rest, rfl⟩
    rw [Text.after?_append] at none
    cases none
  · intro other
    cases found : Text.after? head t with
    | none => rfl
    | some rest => exact absurd ⟨rest, (Text.eq_append_of_after? found).symm⟩ other

namespace Comparison

/-- The sign of no comparison stands in the text. -/
def Signless (t : Text) : Prop := ∀ comparison : Comparison, ¬ comparison.sign <:+: t

/-- The character is part of the sign of no comparison. -/
def Apart (c : Char) : Prop := ∀ comparison : Comparison, c ∉ comparison.sign

variable {s t rest : Text} {comparison : Comparison}

theorem apart_iff {c : Char} : Apart c ↔ c ≠ '=' ∧ c ≠ '!' ∧ c ≠ '<' ∧ c ≠ '>' := by
  constructor
  · intro apart
    refine ⟨?_, ?_, ?_, ?_⟩ <;> rintro rfl
    · exact apart .equal (by decide)
    · exact apart .notEqual (by decide)
    · exact apart .less (by decide)
    · exact apart .greater (by decide)
  · rintro ⟨equal, not, less, greater⟩ comparison member
    cases comparison <;> simp_all [sign]

theorem exists_sign (comparison : Comparison) :
    ∃ c rest, comparison.sign = c :: rest ∧ rest.length ≤ 1 ∧ ('=' ∈ c :: rest ∨ c = '<' ∨ c = '>') := by
  cases comparison with
  | equal => exact ⟨'=', ['='], rfl, by decide, by decide⟩
  | notEqual => exact ⟨'!', ['='], rfl, by decide, by decide⟩
  | atMost => exact ⟨'<', ['='], rfl, by decide, by decide⟩
  | atLeast => exact ⟨'>', ['='], rfl, by decide, by decide⟩
  | less => exact ⟨'<', [], rfl, by decide, by decide⟩
  | greater => exact ⟨'>', [], rfl, by decide, by decide⟩

theorem signless_of_forall (other : ∀ c ∈ t, c ≠ '=' ∧ c ≠ '<' ∧ c ≠ '>') : Signless t := by
  intro comparison inside
  obtain ⟨c, rest, sign, _, one⟩ := comparison.exists_sign
  have member {d : Char} (part : d ∈ comparison.sign) := other d (inside.subset part)
  rw [sign] at member
  rcases one with equal | rfl | rfl
  · exact (member equal).1 rfl
  · exact (member List.mem_cons_self).2.1 rfl
  · exact (member List.mem_cons_self).2.2 rfl

theorem signless_nil : Signless [] := signless_of_forall fun _ none => absurd none List.not_mem_nil

theorem Signless.cons {c : Char} (signless : Signless t) (apart : Apart c) : Signless (c :: t) := by
  intro comparison inside
  rcases Text.infix_append_cons (s := []) (apart comparison) inside with none | inside
  · exact signless_nil comparison none
  · exact signless comparison inside

theorem Signless.append (signless : Signless s) (others : Signless t) (first : ∀ c ∈ t.head?, Apart c) :
    Signless (s ++ t) := by
  cases t with
  | nil => rwa [List.append_nil]
  | cons c t =>
    intro comparison inside
    rcases Text.infix_append_cons (first c rfl comparison) inside with inside | inside
    · exact signless comparison inside
    · exact others comparison (List.infix_cons inside)

theorem leading?_eq_none_iff : leading? t = none ↔ ∀ comparison : Comparison, ¬ comparison.sign <+: t := by
  have every (comparison : Comparison) : comparison ∈ all := by cases comparison <;> decide
  simp only [leading?, List.findSome?_eq_none_iff, Option.map_eq_none_iff, Text.after?_eq_none_iff, every,
    forall_const]

/-- The longest sign counts. -/
theorem leading?_sign (clear : t.head? ≠ some '=') : leading? (comparison.sign ++ t) = some (comparison, t) := by
  have shorter : Text.after? ['='] t = none := by
    cases t with
    | nil => rfl
    | cons c t =>
      rw [Text.after?, if_neg]
      rintro rfl
      exact clear rfl
  cases comparison <;> simp [leading?, all, sign, Text.after?, shorter]

theorem split?_sign (clear : t.head? ≠ some '=') : split? (comparison.sign ++ t) = some ([], comparison, t) := by
  obtain ⟨c, rest, sign, _⟩ := comparison.exists_sign
  have leads := @leading?_sign t comparison clear
  rw [sign, List.cons_append] at leads
  rw [sign, List.cons_append, split?, leads]

/-- An exclamation mark is part of a sign only in front of an equals sign. -/
theorem split?_not (clear : t.head? ≠ some '=') :
    split? ('!' :: t) = (split? t).map fun (left, comparison, right) => ('!' :: left, comparison, right) := by
  have leads : leading? ('!' :: t) = none := by
    refine leading?_eq_none_iff.mpr fun comparison front => ?_
    cases comparison <;> try exact absurd (List.cons_prefix_cons.mp front).1 (by decide)
    obtain ⟨rest, eq⟩ := (List.cons_prefix_cons.mp front).2
    exact clear (eq ▸ rfl)
  rw [split?, leads]

/-- A sign is looked for behind what has none, if it does not end with a part of one. -/
theorem split?_append (signless : Signless s) (last : ∀ c ∈ s.getLast?, Apart c) (rest : Text) :
    split? (s ++ rest) = (split? rest).map fun (left, comparison, right) => (s ++ left, comparison, right) := by
  induction s with
  | nil => simp
  | cons c s ih =>
    have leads : leading? (c :: (s ++ rest)) = none := by
      refine leading?_eq_none_iff.mpr fun comparison front => ?_
      obtain ⟨d, more, sign, short, _⟩ := comparison.exists_sign
      cases s with
      | nil =>
        -- the sign would begin with the last character
        have here : c ∈ comparison.sign := by
          rw [sign] at front ⊢
          rw [(List.cons_prefix_cons.mp front).1]
          exact List.mem_cons_self
        exact last c rfl comparison here
      | cons e s =>
        -- there is room for all of the sign
        have within : comparison.sign <+: c :: e :: s := by
          refine List.prefix_of_prefix_length_le front (List.prefix_append (c :: e :: s) rest) ?_
          rw [sign]
          simp only [List.length_cons]
          omega
        exact signless comparison within.isInfix
    have later : ∀ d ∈ s.getLast?, Apart d := by
      cases s with
      | nil => exact fun d member => absurd member nofun
      | cons e s => exact fun d member => last d member
    rw [List.cons_append, split?, leads, ih (fun comparison inside => signless comparison (List.infix_cons inside)) later,
      Option.map_map]
    rfl

/-- A sign that stands in a text is found there, or one before it. -/
theorem split?_within (inside : comparison.sign <:+: t) (rest : Text) :
    ∃ left found right, split? (t ++ rest) = some (left, found, right) ∧ left <+: t := by
  induction t with
  | nil =>
    obtain ⟨c, more, sign, _⟩ := comparison.exists_sign
    rw [sign, List.infix_nil] at inside
    cases inside
  | cons c t ih =>
    rw [List.cons_append, split?]
    cases leads : leading? (c :: (t ++ rest)) with
    | some found => exact ⟨[], found.1, found.2, rfl, List.nil_prefix⟩
    | none =>
      rcases List.infix_cons_iff.mp inside with front | inside
      · exact absurd (front.trans (List.prefix_append (c :: t) rest)) (leading?_eq_none_iff.mp leads comparison)
      · obtain ⟨left, found, right, split, within⟩ := ih inside
        refine ⟨c :: left, found, right, ?_, List.cons_prefix_cons.mpr ⟨rfl, within⟩⟩
        simp only [split, Option.map_some]

theorem split?_eq_none_iff : split? t = none ↔ Signless t := by
  constructor
  · intro none comparison inside
    obtain ⟨left, found, right, split, _⟩ := split?_within inside []
    rw [List.append_nil, none] at split
    cases split
  · intro signless
    induction t with
    | nil => rfl
    | cons c t ih =>
      have leads : leading? (c :: t) = none :=
        leading?_eq_none_iff.mpr fun comparison front => signless comparison front.isInfix
      rw [split?, leads, ih fun comparison inside => signless comparison (List.infix_cons inside)]
      rfl

end Comparison

end MarkupTemplates
