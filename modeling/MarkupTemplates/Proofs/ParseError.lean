import Mathlib.Data.List.Induction
import Mathlib.Order.Bounds.Defs
import MarkupTemplates.ParseError
import MarkupTemplates.Proofs.Text.Cuts

namespace MarkupTemplates

/-- A text made up of whole lines, each with the line feed that ends it. -/
inductive Text.WholeLines : Text → Prop
  | none : WholeLines []
  | line {lines line : Text} : WholeLines lines → '\n' ∉ line → WholeLines (lines ++ line ++ ['\n'])

/-- Where a text ends: the row, and the column in it, both counted from one. -/
def Text.place (t : Text) : Nat × Nat :=
  (1 + t.count '\n', 1 + (t.reverse.takeWhile (· != '\n')).length)

/-- Rows come one below the other, and columns from left to right. -/
def Ahead (p q : Nat × Nat) : Prop := p.1 < q.1 ∨ p.1 = q.1 ∧ p.2 < q.2

namespace Text

theorem place_feed (t : Text) : place (t ++ ['\n']) = (t.place.1 + 1, 1) := by
  simp only [place, List.count_append, List.count_singleton_self, List.reverse_append, List.reverse_singleton,
    List.singleton_append, List.takeWhile_cons, bne_self_eq_false, Bool.false_eq_true, if_false, List.length_nil,
    Nat.add_assoc]

theorem place_char (t : Text) {c : Char} (other : c ≠ '\n') : place (t ++ [c]) = (t.place.1, t.place.2 + 1) := by
  have within : (c != '\n') = true := bne_iff_ne.mpr other
  simp only [place, List.count_append, List.count_singleton, beq_eq_false_iff_ne.mpr other, Bool.false_eq_true,
    if_false, Nat.add_zero, List.reverse_append, List.reverse_singleton, List.singleton_append, List.takeWhile_cons,
    within, if_true, List.length_cons, Nat.add_assoc]

theorem ahead_place_concat (t : Text) {c : Char} : Ahead t.place (place (t ++ [c])) := by
  by_cases feed : c = '\n'
  · rw [feed, place_feed]
    exact .inl (Nat.lt_succ_self _)
  · rw [place_char t feed]
    exact .inr ⟨rfl, Nat.lt_succ_self _⟩

end Text

theorem Ahead.irrefl (p : Nat × Nat) : ¬ Ahead p p := by
  unfold Ahead
  omega

theorem Ahead.trans {p q r : Nat × Nat} (one : Ahead p q) (two : Ahead q r) : Ahead p r := by
  unfold Ahead at *
  omega

namespace Text

/-- The more there is of a text, the further on it ends. -/
theorem ahead_place (t : Text) {more : Text} (some_more : more ≠ []) : Ahead t.place (place (t ++ more)) := by
  induction more using List.reverseRecOn with
  | nil => exact absurd rfl some_more
  | append_singleton more c ih =>
    rw [← List.append_assoc]
    cases more with
    | nil =>
      rw [List.append_nil]
      exact ahead_place_concat t
    | cons d more => exact (ih (List.cons_ne_nil d more)).trans (ahead_place_concat _)

/-- Every text is whole lines and the beginning of one more. -/
theorem exists_lines (t : Text) : ∃ lines line, t = lines ++ line ∧ WholeLines lines ∧ '\n' ∉ line ∧
    t.place = (1 + lines.count '\n', 1 + line.length) := by
  induction t using List.reverseRecOn with
  | nil => exact ⟨[], [], rfl, .none, List.not_mem_nil, rfl⟩
  | append_singleton t c ih =>
    obtain ⟨lines, line, rfl, whole, inside, place⟩ := ih
    by_cases feed : c = '\n'
    · subst feed
      refine ⟨lines ++ line ++ ['\n'], [], (List.append_nil _).symm, .line whole inside, List.not_mem_nil, ?_⟩
      rw [place_feed, place, List.count_append, List.count_append, List.count_singleton_self,
        List.count_eq_zero_of_not_mem inside]
      rfl
    · refine ⟨lines, line ++ [c], List.append_assoc .., whole, ?_, ?_⟩
      · rw [List.mem_append, List.mem_singleton, not_or]
        exact ⟨inside, fun eq => feed eq.symm⟩
      · rw [place_char _ feed, place, List.length_append, List.length_singleton]
        rfl

/-- The boundaries of a text are in the order of the places where the text in front of them ends. -/
theorem ahead_takeBytes {t : Text} {m n : Nat} (one : t.IsBoundary m) (other : t.IsBoundary n) (less : m < n) :
    Ahead (t.takeBytes m).place (t.takeBytes n).place := by
  obtain ⟨before, middle, after, rfl, rfl, rfl⟩ := one.split other (Nat.le_of_lt less)
  have longer := takeBytes_append (before ++ middle) after
  have shorter := takeBytes_append before (middle ++ after)
  rw [byteSize_append] at longer
  rw [← List.append_assoc] at shorter
  rw [longer, shorter]
  refine ahead_place before ?_
  rintro rfl
  exact absurd less (Nat.lt_irrefl _)

end Text

namespace ParseError

theorem place_locate (fault : ParseFault) (resource : Resource) (n : Nat) :
    ((locate fault resource n).row, (locate fault resource n).column) =
      (resource.source.takeBytes (locate fault resource n).offset).place := rfl

/-- The offset is the last character boundary that is asked for or before it. -/
theorem isGreatest_offset (fault : ParseFault) (resource : Resource) (n : Nat) :
    IsGreatest {b | resource.source.IsBoundary b ∧ b ≤ n ∧ b ≤ resource.source.byteSize}
      (locate fault resource n).offset := by
  have own : resource.source.IsBoundary (locate fault resource n).offset :=
    resource.source.isBoundary_boundaryBefore n
  refine ⟨⟨own, resource.source.boundaryBefore_le n, own.le⟩, fun b inside => ?_⟩
  exact inside.1.le_boundaryBefore inside.2.1

/-- Offsets in one source are in the order of rows and columns. -/
theorem offset_lt_iff {e e' : ParseError} {resource : Resource} (one : ∃ fault n, e = locate fault resource n)
    (other : ∃ fault n, e' = locate fault resource n) :
    e.offset < e'.offset ↔ Ahead (e.row, e.column) (e'.row, e'.column) := by
  obtain ⟨fault, n, rfl⟩ := one
  obtain ⟨fault', n', rfl⟩ := other
  rw [place_locate, place_locate]
  have one := (isGreatest_offset fault resource n).1.1
  have other := (isGreatest_offset fault' resource n').1.1
  generalize (locate fault resource n).offset = m at one
  generalize (locate fault' resource n').offset = m' at other
  refine ⟨Text.ahead_takeBytes one other, fun ahead => ?_⟩
  rcases Nat.lt_trichotomy m m' with less | rfl | more
  · exact less
  · exact absurd ahead (Ahead.irrefl _)
  · exact absurd (ahead.trans (Text.ahead_takeBytes other one more)) (Ahead.irrefl _)

/-- An error denotes one place. Its offset is the last boundary between characters that lies neither behind the
one that is asked for nor behind the end. Its row counts the lines in front of that, its column the characters on the
line; errors in one source come in the same order by rows and columns as by offsets, so that no two places have both
in common. It shows what is left of the source, or the first 72 characters of it. -/
theorem located_at_one_place (fault : ParseFault) (resource : Resource) (n : Nat) :
    let e := locate fault resource n
    e.fault = fault ∧ e.sourceName = resource.name ∧
    IsGreatest {b | resource.source.IsBoundary b ∧ b ≤ n ∧ b ≤ resource.source.byteSize} e.offset ∧
    (∃ lines line after, resource.source = lines ++ line ++ after ∧ Text.byteSize (lines ++ line) = e.offset ∧
      Text.WholeLines lines ∧ '\n' ∉ line ∧
      e.row = 1 + (lines ++ line).count '\n' ∧ e.column = 1 + line.length ∧
      e.near = if after.length ≤ 72 then Text.quoted after else Text.quoted (after.take 72) ++ ("..." : Text)) ∧
    ∀ fault' n', let e' := locate fault' resource n'
      (e.offset < e'.offset ↔ e.row < e'.row ∨ e.row = e'.row ∧ e.column < e'.column) ∧
      (e.offset = e'.offset ↔ e.row = e'.row ∧ e.column = e'.column) := by
  intro e
  have greatest := isGreatest_offset fault resource n
  refine ⟨rfl, rfl, greatest, ?_, fun fault' n' => ?_⟩
  · obtain ⟨before, after, split, size⟩ := greatest.1.1
    obtain ⟨lines, line, rfl, whole, inside, place⟩ := before.exists_lines
    have located := place_locate fault resource n
    have left := Text.dropBytes_append (lines ++ line) after
    rw [← size, split, Text.takeBytes_append, place] at located
    rw [← split, size] at left
    obtain ⟨row, column⟩ := Prod.mk.inj located
    refine ⟨lines, line, after, split, size, whole, inside, ?_, column, ?_⟩
    · rw [List.count_append, List.count_eq_zero_of_not_mem inside]
      exact row
    · exact congrArg excerpt left
  · intro e'
    have lower : e.offset < e'.offset ↔ Ahead (e.row, e.column) (e'.row, e'.column) :=
      offset_lt_iff ⟨_, _, rfl⟩ ⟨_, _, rfl⟩
    have upper : e'.offset < e.offset ↔ Ahead (e'.row, e'.column) (e.row, e.column) :=
      offset_lt_iff ⟨_, _, rfl⟩ ⟨_, _, rfl⟩
    simp only [Ahead] at lower upper
    exact ⟨lower, by omega⟩

end ParseError

end MarkupTemplates
