import MarkupTemplates.Proofs.Markup.Cutting
import MarkupTemplates.Proofs.Markup.Quoting
import MarkupTemplates.Proofs.Text.Cuts

namespace MarkupTemplates

namespace Text

/-- The character that a reference at the beginning of the text stands for, with the place of the semicolon. -/
def checkedReference (t : Text) : Option (Option (Char × Nat)) :=
  match position? ';' t with
  | none => some none
  | some stop => (t.checkedSlice 1 stop).map fun name => (referenced? name).map fun c => (c, stop)

/-- Resolves references as they are found by their positions, in at most so many rounds. -/
def checkedResolved : Nat → Text → Option Text
  | 0, _ => none
  | rounds + 1, t =>
    match position? '&' t with
    | none => some t
    | some position => do
      let before ← t.checkedSlice 0 position
      let t ← t.checkedSlice position t.byteSize
      match ← checkedReference t with
      | some (c, stop) => do
        let rest ← checkedResolved rounds (← t.checkedSlice (stop + 1) t.byteSize)
        return before ++ c :: rest
      | none => do
        let rest ← checkedResolved rounds (← t.checkedSlice 1 t.byteSize)
        return before ++ '&' :: rest

theorem position?_eq {mark : Char} {before : Text} (without : mark ∉ before) (rest : Text) :
    position? mark (before ++ mark :: rest) = some before.byteSize := by
  rw [position?, Scan.cutAt?_append rest without, Option.map_some]

theorem position?_of_not_mem {mark : Char} {t : Text} (without : mark ∉ t) : position? mark t = none := by
  rw [position?, cutAt?_of_not_mem without, Option.map_none]

/-- The name of a reference can be cut out of the text, and so can what follows the semicolon. -/
theorem checkedReference_eq (t : Text) : match reference? t with
    | none => checkedReference ('&' :: t) = some none
    | some (c, rest) => ∃ stop, checkedReference ('&' :: t) = some (some (c, stop)) ∧
      checkedSlice ('&' :: t) (stop + 1) (byteSize ('&' :: t)) = some rest := by
  by_cases member : ';' ∈ t
  · obtain ⟨name, rest, rfl, apart⟩ := List.eq_append_cons_of_mem member
    have place : position? ';' ('&' :: (name ++ ';' :: rest)) = some (byteSize ('&' :: name)) :=
      @position?_eq ';' ('&' :: name) (by simpa using apart) rest
    have cut : checkedSlice ('&' :: (name ++ ';' :: rest)) 1 (byteSize ('&' :: name)) = some name :=
      checkedSlice_append ['&'] name (';' :: rest)
    have behind : checkedSlice ('&' :: (name ++ ';' :: rest)) (byteSize ('&' :: name) + 1)
        (byteSize ('&' :: (name ++ ';' :: rest))) = some rest := by
      have all := checkedSlice_back ('&' :: name ++ [';']) rest
      rw [byteSize_append ('&' :: name) [';'], List.append_assoc] at all
      exact all
    rw [reference?, Scan.cutAt?_append rest apart, checkedReference, place]
    simp only [cut, Option.map_some]
    cases referenced? name with
    | none => rfl
    | some c => exact ⟨_, rfl, behind⟩
  · rw [reference?, cutAt?_of_not_mem member, checkedReference, position?_of_not_mem (by simpa using member)]

/-- There is a round for each reference and one more, and no round cuts a character in two. -/
theorem checkedResolved_eq {rounds : Nat} {t : Text} (enough : t.length < rounds) :
    checkedResolved rounds t = some t.resolved := by
  induction rounds generalizing t with
  | zero => exact absurd enough (Nat.not_lt_zero _)
  | succ rounds ih =>
    rw [checkedResolved]
    by_cases member : '&' ∈ t
    · obtain ⟨before, rest, rfl, plain⟩ := List.eq_append_cons_of_mem member
      rw [List.length_append, List.length_cons] at enough
      rw [position?_eq plain, resolved_past plain]
      simp only [checkedSlice_front, checkedSlice_back, Option.bind_eq_bind, Option.bind_some]
      have reads := checkedReference_eq rest
      cases read : reference? rest with
      | none =>
        have onward : checkedSlice ('&' :: rest) 1 (byteSize ('&' :: rest)) = some rest :=
          checkedSlice_back ['&'] rest
        rw [read] at reads
        simp only [reads, Option.bind_some, onward, ih (show rest.length < rounds by omega), resolved_ampersand read]
        rfl
      | some found =>
        obtain ⟨c, after⟩ := found
        rw [read] at reads
        obtain ⟨stop, known, behind⟩ := reads
        have shorter := reference?_length read
        simp only [known, Option.bind_some, behind, ih (show after.length < rounds by omega), resolved_reference read]
        rfl
    · have whole := resolved_past member []
      rw [List.append_nil, resolved, List.append_nil] at whole
      rw [position?_of_not_mem member, whole]

theorem toNat_toLower {c : Char} (upper : c.val ≥ 'A'.val ∧ c.val ≤ 'Z'.val) : c.toLower.toNat = c.toNat + 32 := by
  have hi := UInt32.le_iff_toNat_le.mp upper.2
  have limit : 'Z'.val.toNat = 90 := rfl
  have distance : ('a'.val - 'A'.val).toNat = 32 := rfl
  have lower : c.toLower.val = c.val + ('a'.val - 'A'.val) := congrArg Char.val (dif_pos upper)
  simp only [Char.toNat, lower, UInt32.toNat_add, distance]
  omega

theorem toLower_other {c : Char} (other : ¬ (c.val ≥ 'A'.val ∧ c.val ≤ 'Z'.val)) : c.toLower = c := dif_neg other

/-- A letter of ASCII takes up one byte, in either case. -/
theorem utf8Size_toLower (c : Char) : c.toLower.utf8Size = c.utf8Size := by
  by_cases upper : c.val ≥ 'A'.val ∧ c.val ≤ 'Z'.val
  · have one {d : Char} (small : d.toNat ≤ 127) : d.utf8Size = 1 :=
      Char.utf8Size_eq_one_iff.mpr (UInt32.le_iff_toNat_le.mpr small)
    have hi : c.toNat ≤ 90 := UInt32.le_iff_toNat_le.mp upper.2
    have low := toNat_toLower upper
    rw [one (show c.toNat ≤ 127 by omega), one (by omega)]
  · rw [toLower_other upper]

/-- Only letters have a case. -/
theorem toLower_eq_iff {d : Char} (small : d.toNat < 65) (c : Char) : c.toLower = d ↔ c = d := by
  by_cases upper : c.val ≥ 'A'.val ∧ c.val ≤ 'Z'.val
  · have lo : 65 ≤ c.toNat := UInt32.le_iff_toNat_le.mp upper.1
    have low := toNat_toLower upper
    have other {other : Char} (far : 65 ≤ other.toNat) : other ≠ d := by
      rintro rfl
      omega
    exact iff_of_false (other (by omega)) (other lo)
  · rw [toLower_other upper]

theorem toLower_eq_bracket_iff (c : Char) : c.toLower = '>' ↔ c = '>' := toLower_eq_iff (by decide) c

theorem byteSize_lower (t : Text) : byteSize t.lower = byteSize t := by
  induction t with
  | nil => rfl
  | cons c t ih =>
    show c.toLower.utf8Size + byteSize (lower t) = _
    rw [utf8Size_toLower, ih, byteSize_cons]

end Text

namespace Scan

/-- The content of a raw element is found by positions in the text in lower case, and cut out of the text
itself. -/
def checkedRawContent (name t : Text) : Option (Text × Text) := do
  let lower := t.lower
  let size ← match Text.find? ('<' :: '/' :: name) lower with
    | none => some t.byteSize
    | some position => (lower.checkedSlice position lower.byteSize).map fun ending =>
      match Text.position? '>' ending with
      | some mark => position + mark + 1
      | none => t.byteSize
  return (← t.checkedSlice 0 size, ← t.checkedSlice size t.byteSize)

/-- Raw content goes on up to the end tag and through its bracket, or through all of the text. -/
theorem rawContent_cases (name t : Text) :
    (Text.cut? ('<' :: '/' :: name) (Text.lower t) = none ∧ rawContent name t = (t, [])) ∨
      ∃ before ending after, t = before ++ ending ∧
        Text.cut? ('<' :: '/' :: name) (Text.lower t) = some (Text.lower before, after) ∧
        rawContent name t = (before ++ (through ['>'] ending).1, (through ['>'] ending).2) := by
  induction t with
  | nil => exact .inl ⟨rfl, rfl⟩
  | cons c t ih =>
    have lower : Text.lower (c :: t) = c.toLower :: Text.lower t := rfl
    cases here : Text.after? ('<' :: '/' :: name) (Text.lower (c :: t)) with
    | some after =>
      refine .inr ⟨[], c :: t, after, rfl, ?_, ?_⟩
      · rw [lower] at here ⊢
        rw [Text.cut?, here]
        rfl
      · rw [rawContent, here]
        rfl
    | none =>
      have raw : rawContent name (c :: t) = (c :: (rawContent name t).1, (rawContent name t).2) := by
        rw [rawContent, here]
      have cut : Text.cut? ('<' :: '/' :: name) (Text.lower (c :: t)) =
          (Text.cut? ('<' :: '/' :: name) (Text.lower t)).map fun parts => (c.toLower :: parts.1, parts.2) := by
        rw [lower] at here ⊢
        rw [Text.cut?, here]
      rw [raw, cut]
      obtain ⟨none, whole⟩ | ⟨before, ending, after, rfl, found, content⟩ := ih
      · exact .inl ⟨by rw [none]; rfl, by rw [whole]⟩
      · exact .inr ⟨c :: before, ending, after, rfl, by rw [found]; rfl, by rw [content]; rfl⟩

theorem cut?_singleton (mark : Char) (t : Text) : Text.cut? [mark] t = Text.cutAt? mark t := by
  induction t with
  | nil => rfl
  | cons c t ih =>
    by_cases here : mark = c
    · subst here
      simp [Text.cut?, Text.after?, Text.cutAt?]
    · rw [Text.cut?, Text.after?, if_neg here]
      simp only [ih, Text.cutAt?, List.dropWhile_cons, List.takeWhile_cons, bne_iff_ne.mpr (Ne.symm here), if_true]
      cases t.dropWhile (· != mark) <;> rfl

theorem position?_lower (t : Text) : Text.position? '>' t.lower = Text.position? '>' t := by
  have among (t : Text) : '>' ∈ t.lower ↔ '>' ∈ t := by
    simp only [Text.lower, List.mem_map, Text.toLower_eq_bracket_iff, exists_eq_right]
  by_cases member : '>' ∈ t
  · obtain ⟨before, rest, rfl, apart⟩ := List.eq_append_cons_of_mem member
    have there : Text.lower (before ++ '>' :: rest) = Text.lower before ++ '>' :: Text.lower rest := by
      rw [lower_append]
      rfl
    rw [there, Text.position?_eq apart, Text.position?_eq (mt (among before).mp apart), Text.byteSize_lower]
  · rw [Text.position?_of_not_mem member, Text.position?_of_not_mem (mt (among t).mp member)]

theorem checkedRawContent_eq (name t : Text) : checkedRawContent name t = some (rawContent name t) := by
  have divided (first second : Text) : ((first ++ second).checkedSlice 0 first.byteSize >>= fun content =>
      (first ++ second).checkedSlice first.byteSize (first ++ second).byteSize >>= fun rest =>
      pure (content, rest)) = some (first, second) := by
    simp only [Text.checkedSlice_front, Text.checkedSlice_back, Option.bind_eq_bind, Option.bind_some]
    rfl
  have all := divided t []
  rw [List.append_nil] at all
  rw [checkedRawContent, Text.find?]
  obtain ⟨none, whole⟩ | ⟨before, ending, after, rfl, found, content⟩ := rawContent_cases name t
  · rw [none, whole]
    exact all
  · have lower := Text.checkedSlice_back (Text.lower before) (Text.lower ending)
    rw [← lower_append, Text.byteSize_lower, Text.byteSize_lower] at lower
    rw [found, content, through, cut?_singleton]
    simp only [Option.map_some, Text.byteSize_lower, lower, position?_lower]
    cases bracket : Text.cutAt? '>' ending with
    | none =>
      rw [show Text.position? '>' ending = none by rw [Text.position?, bracket]; rfl]
      exact all
    | some parts =>
      obtain ⟨inner, rest⟩ := parts
      obtain rfl := Text.eq_append_of_cutAt? bracket
      have whole : before ++ (inner ++ '>' :: rest) = (before ++ (inner ++ ['>'])) ++ rest := by
        simp only [List.append_assoc, List.cons_append, List.nil_append]
      have size : (before ++ (inner ++ ['>'])).byteSize = before.byteSize + Text.byteSize inner + 1 := by
        rw [Text.byteSize_append, Text.byteSize_append, ← Nat.add_assoc]
        rfl
      have cut := divided (before ++ (inner ++ ['>'])) rest
      rw [← whole, size] at cut
      rw [show Text.position? '>' (inner ++ '>' :: rest) = some (Text.byteSize inner) by
        rw [Text.position?, bracket]; rfl]
      exact cut

end Scan

end MarkupTemplates
