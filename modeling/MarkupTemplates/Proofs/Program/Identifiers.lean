import MarkupTemplates.Proofs.Markup.Quoting
import MarkupTemplates.Proofs.Program.Codes
import MarkupTemplates.Proofs.Program.Signs

namespace MarkupTemplates

/-- No blank is part of an identifier. -/
theorem isIdentifierChar_of_isBlank {c : Char} (blank : isBlank c = true) :
    (isLetterOrNumeral c || c = '_' || c = '$') = false := by
  have all : ∀ n ∈ [9, 10, 11, 12, 13, 0x20, 0x85, 0xA0, 0x1680, 0x2000, 0x2001, 0x2002, 0x2003, 0x2004, 0x2005,
      0x2006, 0x2007, 0x2008, 0x2009, 0x200A, 0x2028, 0x2029, 0x202F, 0x205F, 0x3000],
      (isLetterOrNumeral (Char.ofNat n) || Char.ofNat n = '_' || Char.ofNat n = '$') = false := by
    decide +kernel
  have known := all c.toNat (by
    simp only [isBlank, Bool.or_eq_true, Bool.and_eq_true, decide_eq_true_eq] at blank
    simp only [List.mem_cons, List.not_mem_nil, or_false]
    omega)
  rwa [Char.ofNat_toNat] at known

theorem Text.trim_of_isIdentifier {t : Text} (identifier : t.isIdentifier = true) : t.trim = t := by
  have shown : ∀ c ∈ t, isBlank c = false := by
    intro c member
    rw [← Bool.not_eq_true]
    exact fun blank => Text.not_mem_of_isIdentifier identifier (isIdentifierChar_of_isBlank blank) member
  exact Text.trim_of_ends (fun c first => shown c (List.mem_of_mem_head? first))
    fun c last => shown c (List.mem_of_getLast? last)

/-- An identifier declares a macro of that name, without parameters. -/
theorem MacroHead.read_of_isIdentifier {name : Text} (identifier : name.isIdentifier = true) (directive : Text) :
    MacroHead.read directive name = .ok ⟨name, none⟩ := by
  have some_name : name ≠ [] := by
    rintro rfl
    cases identifier
  have unparted : MacroHead.split name = some (name, []) := by
    rw [split, Text.cutAt?_of_not_mem (Text.not_mem_of_isIdentifier identifier (by decide))]
  rw [read, Text.trim_of_isIdentifier identifier, unparted]
  simp only [if_neg some_name, if_pos identifier, if_true]

theorem Text.natural?_none {t : Text} {c : Char} (member : c ∈ t) (other : ¬ digitValue c < 10) :
    Text.natural? 10 t = none := by
  rw [natural?, if_neg]
  rintro ⟨_, all⟩
  exact other (of_decide_eq_true (List.all_eq_true.mp all c member))

/-- No number is an identifier. -/
theorem Text.signed64?_of_isIdentifier {t : Text} (identifier : t.isIdentifier = true) : Text.signed64? t = none := by
  cases t with
  | nil => cases identifier
  | cons c t =>
    have first : (isLetter c || c = '_' || c = '$') = true := (Bool.and_eq_true _ _ ▸ identifier).1
    have nodigit : ¬ digitValue c < 10 := by
      intro small
      have digits : ∀ n ∈ [48, 49, 50, 51, 52, 53, 54, 55, 56, 57],
          (isLetter (Char.ofNat n) || Char.ofNat n = '_' || Char.ofNat n = '$') = false := by decide +kernel
      have digit : c.isDigit = true := by
        rw [← Bool.not_eq_false]
        intro other
        rw [digitValue, other] at small
        split at small
        · contradiction
        · split at small
          · omega
          · split at small <;> omega
      simp only [Char.isDigit, Bool.and_eq_true, decide_eq_true_eq] at digit
      have lower : 48 ≤ c.toNat := UInt32.le_iff_toNat_le.mp digit.1
      have upper : c.toNat ≤ 57 := UInt32.le_iff_toNat_le.mp digit.2
      have known := digits c.toNat (by simp only [List.mem_cons, List.not_mem_nil, or_false]; omega)
      rw [Char.ofNat_toNat] at known
      exact Bool.noConfusion (known.symm.trans first)
    have minus : Text.after? ['-'] (c :: t) = none := by
      rw [Text.after?, if_neg]
      rintro rfl
      exact absurd first (by decide)
    have plus : Text.after? ['+'] (c :: t) = none := by
      rw [Text.after?, if_neg]
      rintro rfl
      exact absurd first (by decide)
    rw [signed64?, minus]
    simp only [unsigned?, plus, Option.getD_none, Text.natural?_none List.mem_cons_self nodigit, Option.filter_none]
    rfl

/-- The identifiers that stand for a value of their own. -/
def Literal.words : List Text := ["null", "true", "false"]

theorem Operand.readAtom_of_isIdentifier {name : Text} (identifier : name.isIdentifier = true)
    (other : name ∉ Literal.words) : Operand.readAtom name = .ok (.name name) := by
  have unquoted : Text.after? ['\''] name = none := by
    refine Text.after?_eq_none_iff.mpr fun front => ?_
    exact Text.not_mem_of_isIdentifier identifier (by decide) (front.subset List.mem_cons_self)
  rw [Operand.readAtom, unquoted]
  simp only [Literal.words, List.mem_cons, List.not_mem_nil, or_false, not_or] at other
  simp only [Option.bind_none, if_neg other.1, if_neg other.2.1, if_neg other.2.2,
    Text.signed64?_of_isIdentifier identifier, if_pos identifier]

theorem Operand.read_of_atom {t : Text} (plain : ∀ c ∈ t.trim.head?, c ≠ '!') : read t = readAtom t.trim := by
  rw [read]
  split
  · next c rest eq =>
    rw [if_neg (plain c (by rw [eq]; rfl)), eq]
  · next eq => rw [eq]

/-- A name is an expression by itself, unless it is the word for a value. -/
theorem Expression.read_of_isIdentifier {name : Text} (identifier : name.isIdentifier = true)
    (other : name ∉ Literal.words) : Expression.read name = .ok ⟨name, .name name, none⟩ := by
  have apart {c : Char} (other : (isLetterOrNumeral c || c = '_' || c = '$') = false) : ∀ d ∈ name, d ≠ c :=
    fun d member eq => Text.not_mem_of_isIdentifier identifier other (eq ▸ member)
  have unsigned : Comparison.split? name = none := Comparison.split?_eq_none_iff.mpr <|
    Comparison.signless_of_forall fun c member =>
      ⟨apart (by decide) c member, apart (by decide) c member, apart (by decide) c member⟩
  have trimmed := Text.trim_of_isIdentifier identifier
  have positive : ∀ c ∈ name.trim.head?, c ≠ '!' := by
    rw [trimmed]
    exact fun c first => apart (by decide) c (List.mem_of_mem_head? first)
  have operand : Operand.read name = .ok (.name name) := by
    rw [Operand.read_of_atom positive, trimmed, Operand.readAtom_of_isIdentifier identifier other]
  rw [Expression.read, trimmed]
  simp only [unsigned, operand]
  rfl

end MarkupTemplates
