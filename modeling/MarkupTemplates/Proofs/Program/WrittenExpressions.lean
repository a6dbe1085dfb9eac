import MarkupTemplates.Proofs.Directive.CommentForm
import MarkupTemplates.Proofs.Program.Identifiers
import MarkupTemplates.Proofs.Text.Chunks

namespace MarkupTemplates

/-- The digits of a decimal number. -/
structure Text.Decimal (digits : Text) (n : Nat) : Prop where
  some_digit : digits ≠ []
  all_digits : ∀ c ∈ digits, c.isDigit = true
  value : Nat.ofDigitChars 10 digits 0 = n

/-- How numbers of 64 bits are written: in decimal, and where they are not negative, with a plus sign or without. -/
inductive Text.Long : Text → Int → Prop
  | unsigned {digits : Text} {n : Nat} : digits.Decimal n → n < Text.bound64 → Long digits n
  | plus {digits : Text} {n : Nat} : digits.Decimal n → n < Text.bound64 → Long ('+' :: digits) n
  | minus {digits : Text} {n : Nat} : digits.Decimal n → n ≤ Text.bound64 → Long ('-' :: digits) (-n)

/-- How literals are written. What is quoted holds no quotation mark. -/
inductive Literal.Written : Literal → Text → Prop
  | null : Written .null "null"
  | yes : Written (.bool true) "true"
  | no : Written (.bool false) "false"
  | long {t : Text} {n : Int} : t.Long n → Written (.long n) t
  | str {q : Text} : '\'' ∉ q → Written (.str q) ('\'' :: (q ++ ['\'']))

/-- How operands are written. The words for literals are no names. -/
inductive Operand.Written : Operand → Text → Prop
  | literal {l : Literal} {t : Text} : l.Written t → Written (.literal l) t
  | name {name : Text} : name.isIdentifier = true → name ∉ Literal.words → Written (.name name) name
  | not {o : Operand} {blanks t : Text} :
      blanks.onlyBlanks = true → Written o t → Written (.not o) ('!' :: (blanks ++ t))

/-- How expressions are written: an operand or two, and the sign of the comparison between them, with blanks around
each of them or without. -/
inductive Expression.Written : Operand → Option (Comparison × Operand) → Text → Prop
  | operand {o : Operand} {t before after : Text} :
      before.onlyBlanks = true → after.onlyBlanks = true → o.Written t → Written o none (before ++ (t ++ after))
  | compared {left right : Operand} {comparison : Comparison} {s t before inner inner' after : Text} :
      before.onlyBlanks = true → inner.onlyBlanks = true → inner'.onlyBlanks = true → after.onlyBlanks = true →
      left.Written s → right.Written t →
      Written left (some (comparison, right)) (before ++ (s ++ inner ++ (comparison.sign ++ (inner' ++ t)) ++ after))

/-- The text that is quoted in the operand, if any. -/
def Operand.quoted? : Operand → Option Text
  | literal (.str q) => some q
  | literal _ => none
  | name _ => none
  | not o => o.quoted?

section Reading

variable {s t : Text} {n : Nat}

theorem Text.Decimal.read (decimal : t.Decimal n) : Text.natural? 10 t = some n := by
  rw [Text.natural?_of_digits decimal.some_digit decimal.all_digits, decimal.value]

theorem Text.Decimal.first (decimal : t.Decimal n) : ∃ c digits, t = c :: digits ∧ c.isDigit = true := by
  obtain ⟨c, digits, rfl⟩ := List.exists_cons_of_ne_nil decimal.some_digit
  exact ⟨c, digits, rfl, decimal.all_digits c List.mem_cons_self⟩

theorem Text.decimal_ofNat (n : Nat) : (ofNat n).Decimal n :=
  ⟨Nat.toDigits_ne_nil, fun _ => isDigit_of_mem_ofNat, Nat.ofDigitChars_ten_toDigits⟩

/-- Every number of 64 bits can be written, as it is printed. -/
theorem Text.long_ofInt {n : Int} (least : -(bound64 : Int) ≤ n) (most : n < bound64) : (ofInt n).Long n := by
  cases n with
  | ofNat n => exact .unsigned (decimal_ofNat n) (by rw [Int.ofNat_eq_natCast] at most; omega)
  | negSucc n => exact .minus (decimal_ofNat (n + 1)) (by rw [Int.negSucc_eq] at least; omega)

theorem Text.Long.read {n : Int} (long : t.Long n) : Text.signed64? t = some n := by
  have sign {c d : Char} {rest : Text} (other : c ≠ d) : Text.after? [c] (d :: rest) = none := by
    rw [Text.after?, if_neg other]
  cases long with
  | unsigned decimal small =>
    have read := decimal.read
    obtain ⟨c, digits, rfl, digit⟩ := decimal.first
    have minus : '-' ≠ c := by rintro rfl; exact absurd digit (by decide)
    have plus : '+' ≠ c := by rintro rfl; exact absurd digit (by decide)
    rw [Text.signed64?, sign minus]
    simp only [Text.unsigned?, sign plus, Option.getD_none, read, Option.filter_some, small, decide_true, if_true]
    rfl
  | plus decimal small =>
    rw [Text.signed64?, sign (by decide)]
    simp only [Text.unsigned?, Text.after?, if_true, Option.getD_some, decimal.read, Option.filter_some, small,
      decide_true]
    rfl
  | minus decimal small =>
    rw [Text.signed64?, show Text.after? ['-'] ('-' :: _) = some _ from rfl]
    simp only [decimal.read, Option.filter_some, small, decide_true, if_true]
    rfl

namespace Operand

theorem read_of_negated {rest : Text} (eq : t.trim = '!' :: rest) : read t = (read rest).map .not := by
  rw [read]
  split
  · next c rest' eq' =>
    obtain ⟨rfl, rfl⟩ := List.cons.inj (eq'.symm.trans eq)
    rw [if_pos rfl]
  · next eq' => cases eq'.symm.trans eq

/-- Only what is left of a text without the blanks around it counts. -/
theorem read_congr (same : s.trim = t.trim) : read s = read t := by
  by_cases negated : ∃ rest, t.trim = '!' :: rest
  · obtain ⟨rest, eq⟩ := negated
    rw [read_of_negated eq, read_of_negated (same.trans eq)]
  · have plain : ∀ c ∈ t.trim.head?, c ≠ '!' := by
      rintro c first rfl
      cases eq : t.trim with
      | nil => rw [eq] at first; cases first
      | cons d rest =>
        rw [eq] at first
        exact negated ⟨rest, by rw [eq, Option.some.inj first]⟩
    rw [read_of_atom plain, read_of_atom (same ▸ plain), same]

theorem read_blanks_append {blanks : Text} (blank : blanks.onlyBlanks = true) (t : Text) : read (blanks ++ t) = read t :=
  read_congr (Text.trim_blanks_append blank t)

theorem read_append_blanks {blanks : Text} (blank : blanks.onlyBlanks = true) (t : Text) : read (t ++ blanks) = read t :=
  read_congr (Text.trim_append_blanks blank t)

theorem read_not (t : Text) : read ('!' :: t) = (read t).map .not := by
  rw [read_of_negated (Text.trim_cons (by decide) t), read_congr (Text.trim_trimEnd t)]

end Operand

end Reading

section Ends

variable {t : Text}

/-- A character that is no blank and no part of the sign of a comparison. -/
structure Comparison.Solid (c : Char) : Prop where
  shown : isBlank c = false
  apart : Comparison.Apart c

/-- A text, other than the empty one, in which there is nothing to take apart. -/
structure Text.Solid (t : Text) : Prop where
  some_char : t ≠ []
  all : ∀ c ∈ t, Comparison.Solid c

theorem Comparison.solid_of_part {c : Char} (part : (isLetterOrNumeral c || c = '_' || c = '$') = true) : Solid c := by
  have other {d : Char} (no : (isLetterOrNumeral d || d = '_' || d = '$') = false) : c ≠ d := by
    rintro rfl
    exact Bool.noConfusion (no.symm.trans part)
  refine ⟨?_, apart_iff.mpr ⟨other (by decide), other (by decide), other (by decide), other (by decide)⟩⟩
  rw [← Bool.not_eq_true]
  exact fun blank => Bool.noConfusion ((isIdentifierChar_of_isBlank blank).symm.trans part)

theorem Comparison.solid_of_isDigit {c : Char} (digit : c.isDigit = true) : Solid c := by
  refine solid_of_part ?_
  have ascii : c.toNat < 0x80 := by
    simp only [Char.isDigit, Bool.and_eq_true, decide_eq_true_eq] at digit
    have upper : c.toNat ≤ 57 := UInt32.le_iff_toNat_le.mp digit.2
    omega
  rw [isLetterOrNumeral, if_pos ascii, Char.isAlphanum, digit, Bool.or_true, Bool.true_or, Bool.true_or]

theorem Comparison.solid_quote : Solid '\'' := ⟨by decide, apart_iff.mpr (by decide)⟩

theorem Comparison.apart_of_isBlank {c : Char} (blank : isBlank c = true) : Apart c := by
  refine apart_iff.mpr ⟨?_, ?_, ?_, ?_⟩ <;> rintro rfl <;> exact absurd blank (by decide)

theorem Comparison.split?_blanks_append {blanks : Text} (blank : blanks.onlyBlanks = true) (rest : Text) :
    split? (blanks ++ rest) =
      (split? rest).map fun (left, comparison, right) => (blanks ++ left, comparison, right) := by
  have apart : ∀ c ∈ blanks, Apart c := fun c member => apart_of_isBlank (List.all_eq_true.mp blank c member)
  refine split?_append (signless_of_forall fun c member => ?_) (fun c last => apart c (List.mem_of_getLast? last)) rest
  obtain ⟨equal, _, less, greater⟩ := apart_iff.mp (apart c member)
  exact ⟨equal, less, greater⟩

theorem Text.solid_of_isIdentifier (identifier : t.isIdentifier = true) : t.Solid where
  some_char := fun eq => absurd (eq ▸ identifier) (by decide)
  all c member := Comparison.solid_of_part (Text.chars_of_isIdentifier identifier c member)

theorem Text.Decimal.solid {n : Nat} (decimal : t.Decimal n) : t.Solid where
  some_char := decimal.some_digit
  all c member := Comparison.solid_of_isDigit (decimal.all_digits c member)

theorem Text.Solid.cons {c : Char} (solid : t.Solid) (first : Comparison.Solid c) : Text.Solid (c :: t) where
  some_char := nofun
  all := List.forall_mem_cons.mpr ⟨first, solid.all⟩

theorem Text.Long.solid {n : Int} (long : t.Long n) : t.Solid := by
  cases long with
  | unsigned decimal => exact decimal.solid
  | plus decimal => exact decimal.solid.cons ⟨by decide, Comparison.apart_iff.mpr (by decide)⟩
  | minus decimal => exact decimal.solid.cons ⟨by decide, Comparison.apart_iff.mpr (by decide)⟩

theorem Text.Solid.exists_first (solid : t.Solid) : ∃ c rest, t = c :: rest ∧ Comparison.Solid c := by
  obtain ⟨c, rest, rfl⟩ := List.exists_cons_of_ne_nil solid.some_char
  exact ⟨c, rest, rfl, solid.all c List.mem_cons_self⟩

theorem Text.Solid.exists_last (solid : t.Solid) : ∃ front c, t = front ++ [c] ∧ Comparison.Solid c :=
  ⟨t.dropLast, t.getLast solid.some_char, (List.dropLast_concat_getLast solid.some_char).symm,
    solid.all _ (List.getLast_mem solid.some_char)⟩

theorem Text.Solid.positive (solid : t.Solid) : ∀ c ∈ t.head?, c ≠ '!' := fun c member =>
  (Comparison.apart_iff.mp (solid.all c (List.mem_of_mem_head? member)).apart).2.1

theorem Text.Solid.signless (solid : t.Solid) : Comparison.Signless t := Comparison.signless_of_forall fun c member =>
  have ⟨equal, _, less, greater⟩ := Comparison.apart_iff.mp (solid.all c member).apart
  ⟨equal, less, greater⟩

theorem Text.Solid.split?_append (solid : t.Solid) (rest : Text) : Comparison.split? (t ++ rest) =
    (Comparison.split? rest).map fun (left, comparison, right) => (t ++ left, comparison, right) :=
  Comparison.split?_append solid.signless (fun c last => (solid.all c (List.mem_of_getLast? last)).apart) rest

/-- Only in what is quoted may there be a blank or a sign. -/
theorem Literal.Written.solid {l : Literal} (written : l.Written t) :
    t.Solid ∨ ∃ q, l = .str q ∧ '\'' ∉ q ∧ t = '\'' :: (q ++ ['\'']) := by
  cases written with
  | null => exact .inl (Text.solid_of_isIdentifier (by decide))
  | yes => exact .inl (Text.solid_of_isIdentifier (by decide))
  | no => exact .inl (Text.solid_of_isIdentifier (by decide))
  | long long => exact .inl long.solid
  | str unquoted => exact .inr ⟨_, rfl, unquoted, rfl⟩

theorem Literal.Written.positive {l : Literal} (written : l.Written t) : ∀ c ∈ t.head?, c ≠ '!' := by
  rcases written.solid with solid | ⟨q, _, _, rfl⟩
  · exact solid.positive
  · rintro c ⟨⟩
    decide

namespace Operand.Written

variable {o : Operand}

/-- Written operands are solid, quoted or negated. -/
theorem shape (written : o.Written t) : t.Solid ∨
    (∃ q, o = .literal (.str q) ∧ '\'' ∉ q ∧ t = '\'' :: (q ++ ['\''])) ∨
    ∃ o' blanks t', o = .not o' ∧ t = '!' :: (blanks ++ t') := by
  cases written with
  | literal written =>
    rcases written.solid with solid | ⟨q, rfl, unquoted, rfl⟩
    · exact .inl solid
    · exact .inr (.inl ⟨q, rfl, unquoted, rfl⟩)
  | name identifier => exact .inl (Text.solid_of_isIdentifier identifier)
  | not => exact .inr (.inr ⟨_, _, _, rfl, rfl⟩)

theorem exists_first (written : o.Written t) : ∃ c rest, t = c :: rest ∧ isBlank c = false ∧ c ≠ '=' := by
  rcases written.shape with solid | ⟨q, _, _, rfl⟩ | ⟨_, blanks, t', _, rfl⟩
  · obtain ⟨c, rest, rfl, shown, apart⟩ := solid.exists_first
    exact ⟨c, rest, rfl, shown, (Comparison.apart_iff.mp apart).1⟩
  · exact ⟨'\'', _, rfl, by decide, by decide⟩
  · exact ⟨'!', _, rfl, by decide, by decide⟩

theorem exists_last (written : o.Written t) : ∃ front c, t = front ++ [c] ∧ Comparison.Solid c := by
  induction written with
  | literal written =>
    rcases written.solid with solid | ⟨q, rfl, _, rfl⟩
    · exact solid.exists_last
    · exact ⟨'\'' :: q, '\'', rfl, Comparison.solid_quote⟩
  | name identifier => exact (Text.solid_of_isIdentifier identifier).exists_last
  | @not o blanks t _ _ ih =>
    obtain ⟨front, c, rfl, solid⟩ := ih
    exact ⟨'!' :: (blanks ++ front), c, by simp, solid⟩

end Operand.Written

end Ends

section Atoms

variable {t : Text}

theorem Text.Long.unquoted {n : Int} (long : t.Long n) : '\'' ∉ t := by
  have digits {digits : Text} {n : Nat} (decimal : digits.Decimal n) : '\'' ∉ digits := fun member =>
    absurd (decimal.all_digits _ member) (by decide)
  cases long with
  | unsigned decimal => exact digits decimal
  | plus decimal => exact List.not_mem_cons_of_ne_of_not_mem (by decide) (digits decimal)
  | minus decimal => exact List.not_mem_cons_of_ne_of_not_mem (by decide) (digits decimal)

theorem Operand.readAtom_long {n : Int} (long : t.Long n) : readAtom t = .ok (.literal (.long n)) := by
  have read := long.read
  have unquoted : Text.after? ['\''] t = none :=
    Text.after?_eq_none_iff.mpr fun front => long.unquoted (front.subset List.mem_cons_self)
  have other {w : Text} (no : Text.signed64? w = none) : t ≠ w := by
    rintro rfl
    cases no.symm.trans read
  rw [readAtom, unquoted]
  simp only [Option.bind_none, if_neg (other (w := "null") (by decide)), if_neg (other (w := "true") (by decide)),
    if_neg (other (w := "false") (by decide)), read]

theorem Literal.Written.readAtom {l : Literal} (written : l.Written t) : Operand.readAtom t = .ok (.literal l) := by
  cases written with
  | null => rfl
  | yes => rfl
  | no => rfl
  | long long => exact Operand.readAtom_long long
  | @str q =>
    rw [Operand.readAtom, show Text.after? ['\''] ('\'' :: (q ++ ['\''])) = some (q ++ ['\'']) from rfl,
      Option.bind_some, Text.before?_append]

/-- A quotation that is not closed is no operand. -/
theorem Operand.readAtom_unclosed (open_ended : '\'' ∉ t) :
    readAtom ('\'' :: t) = .error ⟨("cannot parse expression " : Text) ++ Text.quoted ('\'' :: t), none⟩ := by
  have unclosed : Text.before? ['\''] t = none := by
    rw [← Option.not_isSome_iff_eq_none, Option.isSome_iff_exists]
    rintro ⟨rest, closed⟩
    rw [Text.eq_append_of_before? closed] at open_ended
    exact open_ended (List.mem_append_right rest List.mem_cons_self)
  have number : Text.signed64? ('\'' :: t) = none := by
    rw [Text.signed64?, show Text.after? ['-'] ('\'' :: t) = none from rfl]
    simp only [Text.unsigned?, show Text.after? ['+'] ('\'' :: t) = none from rfl, Option.getD_none,
      Text.natural?_none (t := '\'' :: t) List.mem_cons_self (by decide), Option.filter_none]
    rfl
  have name : Text.isIdentifier ('\'' :: t) = false := rfl
  have other {w : Text} (no : '\'' ∉ w) : '\'' :: t ≠ w := by
    rintro rfl
    exact no List.mem_cons_self
  rw [readAtom, show Text.after? ['\''] ('\'' :: t) = some t from rfl, Option.bind_some, unclosed]
  simp only [if_neg (other (w := "null") (by decide)), if_neg (other (w := "true") (by decide)),
    if_neg (other (w := "false") (by decide)), number, name, Bool.false_eq_true, if_false]

theorem Operand.read_unclosed (open_ended : '\'' ∉ t) :
    read ('\'' :: t) = .error ⟨("cannot parse expression " : Text) ++ Text.quoted ('\'' :: t.trimEnd), none⟩ := by
  have trimmed := Text.trim_cons (c := '\'') (by decide) t
  rw [read_of_atom (by rw [trimmed]; rintro c ⟨⟩; decide), trimmed,
    readAtom_unclosed fun member => open_ended (t.trimEnd_isPrefix.subset member)]

end Atoms

namespace Operand.Written

variable {o : Operand} {t : Text}

theorem trim (written : o.Written t) : t.trim = t := by
  refine Text.trim_of_ends ?_ ?_
  · obtain ⟨c, rest, rfl, shown, _⟩ := written.exists_first
    rintro d ⟨⟩
    exact shown
  · obtain ⟨front, c, rfl, solid⟩ := written.exists_last
    rw [List.getLast?_concat]
    rintro d ⟨⟩
    exact solid.shown

theorem read (written : o.Written t) : Operand.read t = .ok o := by
  have ends := written.trim
  induction written with
  | literal written =>
    rw [read_of_atom (ends.symm ▸ written.positive), ends, written.readAtom]
  | @name name identifier other =>
    have positive : ∀ c ∈ name.head?, c ≠ '!' := (Text.solid_of_isIdentifier identifier).positive
    rw [read_of_atom (ends.symm ▸ positive), ends, readAtom_of_isIdentifier identifier other]
  | not blank written ih =>
    rw [read_not, read_blanks_append blank, ih written.trim]
    rfl

theorem clear (written : o.Written t) {blanks : Text} (blank : blanks.onlyBlanks = true) (rest : Text) :
    (blanks ++ (t ++ rest)).head? ≠ some '=' := by
  cases blanks with
  | nil =>
    obtain ⟨c, rest, rfl, _, other⟩ := written.exists_first
    exact fun eq => other (Option.some.inj eq)
  | cons c blanks =>
    intro eq
    have blank := List.all_eq_true.mp blank c List.mem_cons_self
    rw [Option.some.inj eq] at blank
    exact absurd blank (by decide)

/-- Where what is quoted in an operand holds no sign, a sign is looked for behind the operand. -/
theorem split?_append (written : o.Written t) (signless : ∀ q ∈ o.quoted?, Comparison.Signless q) (rest : Text) :
    Comparison.split? (t ++ rest) =
      (Comparison.split? rest).map fun (left, comparison, right) => (t ++ left, comparison, right) := by
  induction written with
  | literal written =>
    rcases written.solid with solid | ⟨q, rfl, _, rfl⟩
    · exact solid.split?_append rest
    · have closed : Comparison.Signless (q ++ ['\'']) := by
        refine (signless q rfl).append (Comparison.signless_nil.cons Comparison.solid_quote.apart) ?_
        rintro c ⟨⟩
        exact Comparison.solid_quote.apart
      refine Comparison.split?_append (closed.cons Comparison.solid_quote.apart) (fun c last => ?_) rest
      rw [← List.cons_append, List.getLast?_concat] at last
      cases last
      exact Comparison.solid_quote.apart
  | name identifier => exact (Text.solid_of_isIdentifier identifier).split?_append rest
  | @not o blanks t blank written ih =>
    rw [List.cons_append, List.append_assoc, Comparison.split?_not (written.clear blank rest),
      Comparison.split?_blanks_append blank, ih signless, Option.map_map, Option.map_map]
    simp [Function.comp_def]

/-- Where what is quoted in an operand holds a sign, the operand is cut there or before, and the quotation is not
closed. -/
theorem split?_quoted (written : o.Written t) {q : Text} (quoted : q ∈ o.quoted?) (signed : ¬ Comparison.Signless q)
    (rest : Text) : ∃ left found right cut, Comparison.split? (t ++ rest) = some (left, found, right) ∧ cut <+: q ∧
      Operand.read left = .error ⟨("cannot parse expression " : Text) ++ Text.quoted ('\'' :: cut), none⟩ := by
  induction written with
  | literal written =>
    cases written with
    | str unquoted =>
      cases quoted
      obtain ⟨comparison, inside⟩ := not_forall_not.mp signed
      obtain ⟨left, found, right, split, within⟩ := Comparison.split?_within inside ('\'' :: rest)
      have quote := Comparison.split?_append (Comparison.signless_nil.cons Comparison.solid_quote.apart)
        (fun c last => Option.some.inj last ▸ Comparison.solid_quote.apart) (q ++ '\'' :: rest)
      refine ⟨'\'' :: left, found, right, left.trimEnd, ?_, left.trimEnd_isPrefix.trans within,
        read_unclosed fun member => unquoted (within.subset member)⟩
      rw [split] at quote
      simpa using quote
    | _ => cases quoted
  | name => cases quoted
  | @not o blanks t blank written ih =>
    obtain ⟨left, found, right, cut, split, within, read⟩ := ih quoted
    refine ⟨'!' :: (blanks ++ left), found, right, cut, ?_, within, ?_⟩
    · rw [List.cons_append, List.append_assoc, Comparison.split?_not (written.clear blank rest),
        Comparison.split?_blanks_append blank, split]
      rfl
    · rw [read_not, read_blanks_append blank, read]
      rfl

end Operand.Written

namespace Expression

variable {left : Operand} {right : Option (Comparison × Operand)} {text s tail : Text}

/-- What is left of a written expression without the blanks around it begins with its first operand. -/
theorem Written.exists_trim (written : Written left right text) : ∃ s tail, left.Written s ∧ text.trim = s ++ tail ∧
    match right with
    | none => tail = []
    | some (comparison, right) => ∃ inner inner' t, inner.onlyBlanks = true ∧ inner'.onlyBlanks = true ∧
        right.Written t ∧ tail = inner ++ (comparison.sign ++ (inner' ++ t)) := by
  cases written with
  | @operand t before after blank blank' written =>
    refine ⟨t, [], written, ?_, rfl⟩
    rw [Text.trim_blanks_append blank, Text.trim_append_blanks blank', written.trim, List.append_nil]
  | @compared right comparison s t before inner inner' after blank blank_inner blank_inner' blank' written written' =>
    refine ⟨s, _, written, ?_, inner, inner', t, blank_inner, blank_inner', written', rfl⟩
    rw [Text.trim_blanks_append blank, Text.trim_append_blanks blank', List.append_assoc]
    refine Text.trim_of_ends ?_ ?_
    · obtain ⟨c, rest, rfl, shown, _⟩ := written.exists_first
      rintro d ⟨⟩
      exact shown
    · obtain ⟨front, c, rfl, solid⟩ := written'.exists_last
      simp only [← List.append_assoc, List.getLast?_concat]
      rintro d ⟨⟩
      exact solid.shown

theorem read_of_trim (written : left.Written s) (trimmed : text.trim = s ++ [])
    (signless : ∀ q ∈ left.quoted?, Comparison.Signless q) : read text = .ok ⟨text.trim, left, none⟩ := by
  have split := written.split?_append signless []
  rw [List.append_nil] at split trimmed
  rw [read, trimmed]
  simp only [split, Comparison.split?, Option.map_none, written.read]
  rfl

theorem read_of_trim_compared {o : Operand} {comparison : Comparison} {inner inner' t : Text}
    (written : left.Written s) (written' : o.Written t) (blank : inner.onlyBlanks = true)
    (blank' : inner'.onlyBlanks = true) (trimmed : text.trim = s ++ (inner ++ (comparison.sign ++ (inner' ++ t))))
    (signless : ∀ q ∈ left.quoted?, Comparison.Signless q) :
    read text = .ok ⟨text.trim, left, some (comparison, o)⟩ := by
  have clear := written'.clear blank' []
  rw [List.append_nil] at clear
  have split : Comparison.split? text.trim = some (s ++ inner, comparison, inner' ++ t) := by
    rw [trimmed, written.split?_append signless, Comparison.split?_blanks_append blank, Comparison.split?_sign clear]
    simp
  have one : Operand.read (s ++ inner) = .ok left := by rw [Operand.read_append_blanks blank, written.read]
  have two : Operand.read (inner' ++ t) = .ok o := by rw [Operand.read_blanks_append blank', written'.read]
  rw [read]
  simp only [split, one, two]
  rfl

theorem read_of_trim_cut (written : left.Written s) (trimmed : text.trim = s ++ tail) {q : Text}
    (quoted : q ∈ left.quoted?) (signed : ¬ Comparison.Signless q) : ∃ cut, cut <+: q ∧
      read text = .error ⟨("cannot parse expression " : Text) ++ Text.quoted ('\'' :: cut), none⟩ := by
  obtain ⟨front, found, behind, cut, split, within, misread⟩ := written.split?_quoted quoted signed tail
  refine ⟨cut, within, ?_⟩
  rw [read, trimmed]
  simp only [split, misread]
  rfl

/-- A written expression is read as what it was written from, also when it is read again from the source that it
keeps, unless its first operand is a quotation with the sign of a comparison in it. There the quotation is cut, and no
expression is read. -/
theorem read_written (written : Written left right text) :
    ((∀ q ∈ left.quoted?, Comparison.Signless q) →
      read text = .ok ⟨text.trim, left, right⟩ ∧ read text.trim = .ok ⟨text.trim, left, right⟩) ∧
    (∀ q ∈ left.quoted?, ¬ Comparison.Signless q →
      ∃ cut, cut <+: q ∧
        read text = .error ⟨("cannot parse expression " : Text) ++ Text.quoted ('\'' :: cut), none⟩) := by
  obtain ⟨s, tail, first, trimmed, parts⟩ := written.exists_trim
  refine ⟨fun signless => ?_, fun q quoted signed => read_of_trim_cut first trimmed quoted signed⟩
  rw [read_trim, and_self]
  cases right with
  | none =>
    obtain rfl := parts
    exact read_of_trim first trimmed signless
  | some compared =>
    obtain ⟨inner, inner', t, blank, blank', second, rfl⟩ := parts
    exact read_of_trim_compared first second blank blank' trimmed signless

/-- The least number, and a quotation in which a word for a value and half of a sign stand. -/
theorem read_written_of_quotation_and_number :
    let left : Operand := .not (.not (.literal (.str "true ! = a")))
    let right : Operand := .literal (.long (-9223372036854775808))
    let text : Text := " ! !'true ! = a'<= -9223372036854775808\n"
    Written left (some (.atMost, right)) text ∧ (∀ q ∈ left.quoted?, Comparison.Signless q) ∧
      read text = .ok ⟨"! !'true ! = a'<= -9223372036854775808", left, some (.atMost, right)⟩ := by
  have quotation : Operand.Written (.not (.not (.literal (.str "true ! = a")))) "! !'true ! = a'" :=
    @Operand.Written.not _ " " _ rfl (@Operand.Written.not _ "" _ rfl (.literal (.str (q := "true ! = a") (by decide))))
  have digits : Text.ofInt (-9223372036854775808) = "-9223372036854775808" := by decide +kernel
  have number : Operand.Written (.literal (.long (-9223372036854775808))) "-9223372036854775808" :=
    .literal (.long (digits ▸ Text.long_ofInt (by decide) (by decide)))
  have written := @Written.compared _ _ .atMost _ _ " " "" " " "\n" rfl rfl rfl rfl quotation number
  have signless : Comparison.Signless "true ! = a" := Comparison.split?_eq_none_iff.mp (by decide)
  have read := ((read_written written).1 (by rintro q ⟨⟩; exact signless)).1
  exact ⟨written, by rintro q ⟨⟩; exact signless, read⟩

/-- A quotation that holds a sign, by itself. -/
theorem quotation_cut_at_sign :
    Written (.literal (.str "a==b")) none "'a==b'" ∧
      read "'a==b'" = .error ⟨"cannot parse expression \"'a\"", none⟩ :=
  ⟨@Written.operand _ _ "" "" rfl rfl (.literal (.str (q := "a==b") (by decide))), by decide +kernel⟩

end Expression

end MarkupTemplates
