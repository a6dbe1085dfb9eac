import MarkupTemplates.Proofs.Markup.CheckedReading
import MarkupTemplates.Proofs.Markup.Extension

namespace MarkupTemplates

/-- The text begins with an end tag for elements of the name. -/
def StartsEndTag (name t : Text) : Prop :=
  ∃ written gap rest, t = (Token.endTag written gap).text ++ rest ∧ SameName written name ∧
    ∀ c ∈ gap, isGap c = true

/-- The text begins as an end tag for elements of the name does, but the name may go on, and all else may follow. -/
def StartsName (name t : Text) : Prop :=
  ∃ written rest, t = '<' :: '/' :: (written ++ rest) ∧ SameName written name

/-- Content as it is meant: it ends with the first end tag of its element in the text, or with the text if there is
no such end tag. -/
inductive ThroughEndTag (name : Text) : Text → Text → Prop
  | closed {inner written gap rest : Text} : SameName written name → (∀ c ∈ gap, isGap c = true) →
      (∀ before behind, inner ++ ((Token.endTag written gap).text ++ rest) = before ++ behind →
        StartsEndTag name behind → inner.length ≤ before.length) →
      ThroughEndTag name (inner ++ (Token.endTag written gap).text) rest
  | unclosed {content : Text} : (∀ before behind, content = before ++ behind → ¬ StartsEndTag name behind) →
      ThroughEndTag name content []

/-- Content as it is read: it ends with the first bracket behind the first place where the text goes on as an end tag
of its element begins, or with the text if there is no such bracket. -/
inductive ThroughBracket (name : Text) : Text → Text → Prop
  | closed {inner written tail rest : Text} : SameName written name → '>' ∉ tail →
      (∀ before behind, inner ++ ('<' :: '/' :: (written ++ (tail ++ '>' :: rest))) = before ++ behind →
        StartsName name behind → inner.length ≤ before.length) →
      ThroughBracket name (inner ++ '<' :: '/' :: (written ++ (tail ++ ['>']))) rest
  | unclosed {content : Text} :
      (∀ before behind, content = before ++ behind → StartsName name behind → '>' ∉ behind) →
      ThroughBracket name content []

/-- A character that is not a letter is in a name however the name is written. -/
theorem SameName.not_mem {written name : Text} (same : SameName written name) {c : Char} (small : c.toNat < 65)
    (without : c ∉ name.lower) : c ∉ written := fun member =>
  without (same ▸ List.mem_map.mpr ⟨c, member, (Text.toLower_eq_iff small c).mpr rfl⟩)

theorem StartsEndTag.startsName {name t : Text} (starts : StartsEndTag name t) : StartsName name t ∧ '>' ∈ t := by
  obtain ⟨written, gap, rest, rfl, same, _⟩ := starts
  refine ⟨⟨written, gap ++ ['>'] ++ rest, ?_, same⟩, ?_⟩
  · simp only [Token.text, List.append_assoc, List.cons_append]
  · simp [Token.text]

/-- One more character in front, where the name does not begin. -/
theorem ThroughBracket.later {name content rest : Text} {c : Char} (ends : ThroughBracket name content rest)
    (other : ¬ StartsName name (c :: (content ++ rest))) : ThroughBracket name (c :: content) rest := by
  cases ends with
  | @closed inner written tail _ same without first =>
    refine @closed name (c :: inner) written tail rest same without fun before behind eq starts => ?_
    cases before with
    | nil =>
      have here : behind = c :: (inner ++ '<' :: '/' :: (written ++ (tail ++ ['>'])) ++ rest) := by
        rw [← List.nil_append behind, ← eq]
        simp only [List.cons_append, List.append_assoc, List.nil_append]
      exact absurd (here ▸ starts) other
    | cons d before => exact Nat.succ_le_succ (first before behind (List.cons.inj eq).2 starts)
  | unclosed none =>
    refine .unclosed fun before behind eq starts => ?_
    cases before with
    | nil =>
      rw [List.append_nil, eq] at other
      exact absurd starts other
    | cons d before => exact none before behind (List.cons.inj eq).2 starts

/-- An end tag has no angle bracket but the one that it begins with. -/
theorem SameName.angle_not_mem {written name gap : Text} (same : SameName written name) (noAngle : '<' ∉ name.lower)
    (blank : ∀ c ∈ gap, isGap c = true) : '<' ∉ '/' :: written ++ gap ++ ['>'] := by
  simp only [List.mem_append, List.mem_cons, List.not_mem_nil, or_false, not_or]
  exact ⟨⟨⟨by decide, same.not_mem (by decide) noAngle⟩, fun member => absurd (blank _ member) (by decide)⟩, by decide⟩

section

variable {name content rest : Text}

/-- Content as it is read ends no later than the first end tag does. -/
theorem ThroughBracket.covers {before written gap behind : Text} (noBracket : '>' ∉ name.lower)
    (ends : ThroughBracket name content rest)
    (eq : content ++ rest = before ++ ((Token.endTag written gap).text ++ behind)) (same : SameName written name)
    (blank : ∀ c ∈ gap, isGap c = true) : ∃ more, before ++ (Token.endTag written gap).text = content ++ more := by
  have starts : StartsEndTag name ((Token.endTag written gap).text ++ behind) :=
    ⟨written, gap, behind, rfl, same, blank⟩
  cases ends with
  | unclosed absent =>
    rw [List.append_nil] at eq
    exact absurd starts.startsName.2 (absent before _ eq starts.startsName.1)
  | @closed inner opened tail _ opens without first =>
    simp only [List.append_assoc, List.cons_append, List.nil_append] at eq
    have size := first before _ eq starts.startsName.1
    obtain ⟨front, rfl⟩ : inner <+: before :=
      List.prefix_of_prefix_length_le (List.prefix_append _ _) ⟨_, eq.symm⟩ size
    rw [List.append_assoc, List.append_cancel_left_eq] at eq
    have noMark : '>' ∉ '<' :: '/' :: (opened ++ tail) := by
      simp only [List.mem_cons, List.mem_append, not_or]
      exact ⟨by decide, by decide, opens.not_mem (by decide) noBracket, without⟩
    have split : '<' :: '/' :: (opened ++ tail) ++ '>' :: rest =
        front ++ '<' :: '/' :: (written ++ gap) ++ '>' :: behind := by
      simpa [Token.text] using eq
    obtain ⟨more, covered, last⟩ := split_behind noMark split
    have spelled : inner ++ front ++ (Token.endTag written gap).text =
        inner ++ (front ++ '<' :: '/' :: (written ++ gap)) ++ ['>'] := by
      simp [Token.text]
    rw [spelled, covered]
    cases more with
    | nil => exact ⟨[], by simp⟩
    | cons d more =>
      obtain ⟨rfl, _⟩ := List.cons.inj last
      exact ⟨more ++ ['>'], by simp⟩

/-- Content as it is read is content as it is meant just if it ends with an end tag or with the text. -/
theorem ThroughBracket.throughEndTag_iff (noBracket : '>' ∉ name.lower) (noAngle : '<' ∉ name.lower)
    (ends : ThroughBracket name content rest) :
    ThroughEndTag name content rest ↔ rest = [] ∨ ∃ inner written gap,
      content = inner ++ (Token.endTag written gap).text ∧ SameName written name ∧ ∀ c ∈ gap, isGap c = true := by
  have own {inner written gap : Text} (eq : content = inner ++ (Token.endTag written gap).text)
      (same : SameName written name) (blank : ∀ c ∈ gap, isGap c = true) : ThroughEndTag name content rest := by
    subst eq
    refine .closed same blank fun before behind eq starts => ?_
    obtain ⟨other, gap', behind, rfl, same', blank'⟩ := starts
    rw [← List.append_assoc] at eq
    obtain ⟨more, covered⟩ := ends.covers noBracket eq same' blank'
    -- an end tag that begins earlier would go on beyond the bracket of this one
    refine Nat.le_of_not_lt fun earlier => ?_
    have front : before <+: inner ++ ((Token.endTag written gap).text ++ more) :=
      ⟨(Token.endTag other gap').text, by rw [covered, List.append_assoc]⟩
    obtain ⟨between, rfl⟩ := List.prefix_of_prefix_length_le front (List.prefix_append _ _) (Nat.le_of_lt earlier)
    rw [List.append_assoc, List.append_assoc, List.append_cancel_left_eq] at covered
    cases between with
    | nil => exact absurd earlier (by rw [List.append_nil]; exact Nat.lt_irrefl _)
    | cons d between =>
      have later : '<' ∈ between ++ ((Token.endTag written gap).text ++ more) :=
        List.mem_append_right _ (List.mem_append_left _ List.mem_cons_self)
      have inside : between ++ ((Token.endTag written gap).text ++ more) = '/' :: other ++ gap' ++ ['>'] :=
        (List.cons.inj covered).2.symm
      exact absurd (inside ▸ later) (same'.angle_not_mem noAngle blank')
  constructor
  · intro meant
    cases meant with
    | @closed inner written gap _ same blank _ => exact .inr ⟨inner, written, gap, rfl, same, blank⟩
    | unclosed => exact .inl rfl
  · rintro (rfl | ⟨inner, written, gap, eq, same, blank⟩)
    · by_cases absent : ∀ before behind, content = before ++ behind → ¬ StartsEndTag name behind
      · exact .unclosed absent
      · simp only [not_forall, not_not] at absent
        obtain ⟨before, _, eq, written, gap, behind, rfl, same, blank⟩ := absent
        obtain ⟨more, covered⟩ := ends.covers noBracket (by rw [List.append_nil]; exact eq) same blank
        rw [eq, ← List.append_assoc, List.append_assoc _ behind, List.self_eq_append_right] at covered
        obtain ⟨rfl, _⟩ := List.append_eq_nil_iff.mp covered
        rw [List.append_nil] at eq
        exact own eq same blank
    · exact own eq same blank

end

namespace Scan

/-- The place is found by comparison in lower case. -/
theorem after?_lower_iff {name t : Text} :
    (∃ rest, Text.after? ('<' :: '/' :: Text.lower name) (Text.lower t) = some rest) ↔ StartsName name t := by
  constructor
  · rintro ⟨rest, found⟩
    have lowered := Text.eq_append_of_after? found
    rw [List.cons_append, List.cons_append] at lowered
    obtain ⟨c, t, rfl, first, behind⟩ := List.map_eq_cons_iff.mp lowered
    obtain ⟨d, t, rfl, second, behind⟩ := List.map_eq_cons_iff.mp behind
    obtain ⟨written, rest, rfl, same, _⟩ := List.map_eq_append_iff.mp behind
    obtain rfl := (Text.toLower_eq_iff (by decide) c).mp first
    obtain rfl := (Text.toLower_eq_iff (by decide) d).mp second
    exact ⟨written, rest, rfl, same⟩
  · rintro ⟨written, rest, rfl, same⟩
    refine ⟨Text.lower rest, ?_⟩
    have lowered : Text.lower ('<' :: '/' :: (written ++ rest)) = '<' :: '/' :: Text.lower name ++ Text.lower rest := by
      rw [← show Text.lower written = Text.lower name from same, List.cons_append, List.cons_append, ← lower_append]
      rfl
    rw [lowered, Text.after?_append]

theorem through_bracket {front : Text} (without : '>' ∉ front) (rest : Text) :
    through ['>'] (front ++ '>' :: rest) = (front ++ ['>'], rest) := by
  rw [through, cut?_singleton, cutAt?_append rest without]

theorem throughBracket_here {name t : Text} (noBracket : '>' ∉ name.lower) (starts : StartsName name t) :
    ThroughBracket name (through ['>'] t).1 (through ['>'] t).2 := by
  obtain ⟨written, rest, rfl, same⟩ := starts
  have opening : '>' ∉ '<' :: '/' :: written := by
    simp only [List.mem_cons, not_or]
    exact ⟨by decide, by decide, same.not_mem (by decide) noBracket⟩
  by_cases closes : '>' ∈ rest
  · obtain ⟨tail, rest, rfl, without⟩ := List.eq_append_cons_of_mem closes
    have front : '>' ∉ '<' :: '/' :: written ++ tail := fun member =>
      (List.mem_append.mp member).elim opening without
    have taken := through_bracket front rest
    simp only [List.cons_append, List.append_assoc] at taken
    rw [taken]
    exact @ThroughBracket.closed name [] written tail rest same without fun _ _ _ _ => Nat.zero_le _
  · have absent : '>' ∉ '<' :: '/' :: (written ++ rest) := fun member =>
      (List.mem_append.mp (show _ ∈ '<' :: '/' :: written ++ rest from member)).elim opening closes
    rw [through, cut?_singleton, Text.cutAt?_of_not_mem absent]
    refine .unclosed fun before behind eq _ member => absent ?_
    rw [show '<' :: '/' :: (written ++ rest) = before ++ behind from eq]
    exact List.mem_append_right _ member

/-- Where the content of a raw element ends. -/
theorem rawContent_throughBracket {name : Text} (noBracket : '>' ∉ name.lower) (t : Text) :
    ThroughBracket name (rawContent name.lower t).1 (rawContent name.lower t).2 := by
  induction t with
  | nil =>
    refine .unclosed fun before behind eq _ => ?_
    rw [(List.append_eq_nil_iff.mp eq.symm).2]
    exact List.not_mem_nil
  | cons c t ih =>
    rw [rawContent]
    split
    · next rest found => exact throughBracket_here noBracket (after?_lower_iff.mp ⟨rest, found⟩)
    · next missing =>
      refine ih.later fun starts => ?_
      rw [rawContent_spells] at starts
      obtain ⟨rest, found⟩ := after?_lower_iff.mpr starts
      cases missing.symm.trans found

end Scan

end MarkupTemplates
