import Mathlib.Data.Nat.Digits.Defs
import MarkupTemplates.Proofs.Markup.Quoting

namespace MarkupTemplates

theorem Text.ofDigits_eq (base : Nat) (digits : Text) :
    ofDigits base digits = Nat.ofDigits base (digits.map digitValue).reverse := by
  rw [ofDigits, Nat.ofDigits_eq_foldr, List.foldr_reverse, List.foldl_map]
  simp only [Nat.cast_id, Nat.add_comm]

/-- A code point written in digits. -/
structure Numeral (base : Nat) (allowed digits : Text) (c : Char) : Prop where
  some_digit : digits ≠ []
  within : digits ⊆ allowed
  value : Nat.ofDigits base (digits.map digitValue).reverse = c.toNat

/-- The name of a character by its code point, with a sign in front of the digits. -/
inductive CodePoint (sign : Text) : Text → Char → Prop
  | decimal {digits : Text} {c : Char} : Numeral 10 "0123456789" digits c →
      CodePoint sign ('#' :: (sign ++ digits)) c
  | hexadecimal {mark : Char} {digits : Text} {c : Char} : mark = 'x' ∨ mark = 'X' →
      Numeral 16 "0123456789abcdefABCDEF" digits c → CodePoint sign ('#' :: mark :: (sign ++ digits)) c

/-- The characters with a name of their own. -/
def namedCharacters : List (Text × Char) :=
  [("lt", '<'), ("gt", '>'), ("amp", '&'), ("quot", '"'), ("apos", '\''), ("nbsp", '\u00a0')]

/-- What the name in a well-formed reference stands for. -/
def Denotes (name : Text) (c : Char) : Prop := (name, c) ∈ namedCharacters ∨ CodePoint [] name c

/-- What a name stands for where code points may have a plus sign. -/
def DenotesSigned (name : Text) (c : Char) : Prop := Denotes name c ∨ CodePoint ['+'] name c

/-- A text that begins with a reference, which ends at the next semicolon. -/
def RefersAt (denotes : Text → Char → Prop) (t : Text) (c : Char) (rest : Text) : Prop :=
  ∃ name, t = '&' :: (name ++ ';' :: rest) ∧ ';' ∉ name ∧ denotes name c

/-- A text, read from left to right, with each reference replaced by what it stands for and everything else kept. -/
inductive Resolves (denotes : Text → Char → Prop) : Text → Text → Prop
  | nil : Resolves denotes [] []
  | reference {t rest after : Text} {c : Char} : RefersAt denotes t c rest → Resolves denotes rest after →
      Resolves denotes t (c :: after)
  | kept {t after : Text} {c : Char} : (∀ d rest, ¬ RefersAt denotes (c :: t) d rest) → Resolves denotes t after →
      Resolves denotes (c :: t) (c :: after)

/-- Somewhere in the text stands a reference to a code point with a plus sign. -/
def HasSigned (t : Text) : Prop :=
  ∃ before later c rest, t = before ++ later ∧ RefersAt (CodePoint ['+']) later c rest

theorem charOfCode?_eq_some_iff {n : Nat} {c : Char} : charOfCode? n = some c ↔ n = c.toNat := by
  unfold charOfCode?
  constructor
  · intro h
    split at h
    · next valid =>
      rw [← Option.some.inj h, Char.ofNat, dif_pos valid]
      rfl
    · cases h
  · rintro rfl
    rw [if_pos (show c.toNat.isValidChar from c.valid), Char.ofNat_toNat]

/-- All digits are among the first characters. -/
theorem toNat_lt_of_digitValue {c : Char} (digit : digitValue c < 36) : c.toNat < 128 := by
  unfold digitValue at digit
  simp only [Char.isDigit, Char.le_def, Bool.and_eq_true, decide_eq_true_eq, UInt32.le_iff_toNat_le,
    ge_iff_le] at digit
  have nine : '9'.val.toNat = 57 := rfl
  have small : 'z'.val.toNat = 122 := rfl
  have large : 'Z'.val.toNat = 90 := rfl
  rw [← Char.toNat_val]
  split at digit
  · omega
  · split at digit
    · omega
    · split at digit <;> omega

theorem digits_of_table {base : Nat} {allowed : Text} (small : base ≤ 36)
    (sound : allowed.all (digitValue · < base) = true)
    (table : ∀ n < 128, digitValue (Char.ofNat n) < base → Char.ofNat n ∈ allowed) (d : Char) :
    digitValue d < base ↔ d ∈ allowed := by
  refine ⟨fun digit => ?_, fun member => of_decide_eq_true (List.all_eq_true.mp sound d member)⟩
  have known := table d.toNat (toNat_lt_of_digitValue (Nat.lt_of_lt_of_le digit small))
  rw [Char.ofNat_toNat] at known
  exact known digit

theorem decimal_digits : ∀ d, digitValue d < 10 ↔ d ∈ ("0123456789" : Text) :=
  digits_of_table (by decide) rfl (by decide +kernel)

theorem hexadecimal_digits : ∀ d, digitValue d < 16 ↔ d ∈ ("0123456789abcdefABCDEF" : Text) :=
  digits_of_table (by decide) rfl (by decide +kernel)

section

variable {base : Nat} {allowed : Text} (digits : ∀ d, digitValue d < base ↔ d ∈ allowed)

include digits

theorem numeral_iff {t : Text} {c : Char} :
    ((Text.natural? base t).filter (· < codeBound)).bind charOfCode? = some c ↔ Numeral base allowed t c := by
  have within : (t.all (digitValue · < base)) = true ↔ t ⊆ allowed := by
    simp only [List.all_eq_true, decide_eq_true_eq, digits]
    rfl
  simp only [Option.bind_eq_some_iff, Option.filter_eq_some_iff, Text.natural?, Option.ite_none_right_eq_some,
    within, Text.ofDigits_eq, charOfCode?_eq_some_iff, decide_eq_true_eq]
  constructor
  · rintro ⟨_, ⟨⟨⟨some_digit, within⟩, eq⟩, _⟩, value⟩
    exact ⟨some_digit, within, (Option.some.inj eq).trans value⟩
  · rintro ⟨some_digit, within, value⟩
    have bound : c.toNat < codeBound := c.val.toNat_lt
    exact ⟨_, ⟨⟨⟨some_digit, within⟩, rfl⟩, value ▸ bound⟩, value⟩

theorem unsigned_numeral_iff (plain : '+' ∉ allowed) {t : Text} {c : Char} :
    (Text.unsigned? base codeBound t).bind charOfCode? = some c ↔
      Numeral base allowed t c ∨ ∃ rest, t = '+' :: rest ∧ Numeral base allowed rest c := by
  unfold Text.unsigned?
  cases sign : Text.after? ['+'] t with
  | some rest =>
    obtain rfl := Text.eq_append_of_after? sign
    rw [Option.getD_some, numeral_iff digits]
    refine ⟨fun own => .inr ⟨rest, rfl, own⟩, ?_⟩
    rintro (signed | ⟨_, eq, own⟩)
    · exact absurd (signed.within List.mem_cons_self) plain
    · obtain rfl := (List.cons.inj eq).2
      exact own
  | none =>
    rw [Option.getD_none, numeral_iff digits]
    refine ⟨.inl, ?_⟩
    rintro (own | ⟨rest, rfl, _⟩)
    · exact own
    · cases sign.symm.trans (Text.after?_append ['+'] rest)

end

theorem referenced?_hexadecimal {mark : Char} (hexadecimal : mark = 'x' ∨ mark = 'X') (t : Text) :
    referenced? ('#' :: mark :: t) = (Text.unsigned? 16 codeBound t).bind charOfCode? := by
  unfold referenced?
  iterate 6 rw [if_neg nofun]
  rcases hexadecimal with rfl | rfl <;> rfl

theorem referenced?_decimal {t : Text} (small : 'x' ∉ t) (large : 'X' ∉ t) :
    referenced? ('#' :: t) = (Text.unsigned? 10 codeBound t).bind charOfCode? := by
  unfold referenced?
  iterate 6 rw [if_neg nofun]
  split
  · next eq => exact absurd ((List.cons.inj eq).2 ▸ List.mem_cons_self) small
  · next eq => exact absurd ((List.cons.inj eq).2 ▸ List.mem_cons_self) large
  · next eq => rw [(List.cons.inj eq).2]
  · next other => exact absurd rfl (other t)

theorem referenced?_of_codePoint {sign name : Text} {c : Char} (legal : sign = [] ∨ sign = ['+'])
    (code : CodePoint sign name c) : referenced? name = some c := by
  cases code with
  | @hexadecimal mark digits _ hexadecimal own =>
    rw [referenced?_hexadecimal hexadecimal, unsigned_numeral_iff hexadecimal_digits (by decide)]
    rcases legal with rfl | rfl
    · exact .inl own
    · exact .inr ⟨digits, rfl, own⟩
  | @decimal digits _ own =>
    have no_mark {mark : Char} (other : mark ∉ ("0123456789" : Text)) (unsigned : mark ≠ '+') :
        mark ∉ sign ++ digits := by
      rw [List.mem_append, not_or]
      refine ⟨?_, fun member => other (own.within member)⟩
      rcases legal with rfl | rfl
      · exact List.not_mem_nil
      · exact fun member => unsigned (List.mem_singleton.mp member)
    rw [referenced?_decimal (no_mark (by decide) (by decide)) (no_mark (by decide) (by decide)),
      unsigned_numeral_iff decimal_digits (by decide)]
    rcases legal with rfl | rfl
    · exact .inl own
    · exact .inr ⟨digits, rfl, own⟩

theorem referenced?_eq_some_iff {name : Text} {c : Char} : referenced? name = some c ↔ DenotesSigned name c := by
  constructor
  · intro h
    have named {known : Text} {d : Char} (member : (known, d) ∈ namedCharacters) (same : some d = some c)
        (eq : name = known) : DenotesSigned name c := by
      obtain rfl := Option.some.inj same
      obtain rfl := eq
      exact .inl (.inl member)
    have hexadecimal {mark : Char} {digits : Text} (eq : mark = 'x' ∨ mark = 'X')
        (h : (Text.unsigned? 16 codeBound digits).bind charOfCode? = some c) :
        DenotesSigned ('#' :: mark :: digits) c := by
      rcases (unsigned_numeral_iff hexadecimal_digits (by decide)).mp h with plain | ⟨rest, rfl, signed⟩
      · exact .inl (.inr (.hexadecimal eq plain))
      · exact .inr (.hexadecimal eq signed)
    unfold referenced? at h
    iterate 6
      split at h
      · next eq => exact named (by decide) h eq
    split at h
    · exact hexadecimal (.inl rfl) h
    · exact hexadecimal (.inr rfl) h
    · rcases (unsigned_numeral_iff decimal_digits (by decide)).mp h with plain | ⟨rest, rfl, signed⟩
      · exact .inl (.inr (.decimal plain))
      · exact .inr (.decimal signed)
    · cases h
  · rintro ((named | plain) | signed)
    · have all : ∀ known ∈ namedCharacters, referenced? known.1 = some known.2 := by decide +kernel
      exact all _ named
    · exact referenced?_of_codePoint (.inl rfl) plain
    · exact referenced?_of_codePoint (.inr rfl) signed

theorem reference?_eq_some_iff {t rest : Text} {c : Char} :
    reference? t = some (c, rest) ↔ RefersAt DenotesSigned ('&' :: t) c rest := by
  unfold reference?
  constructor
  · intro h
    split at h
    · next name after cut =>
      obtain ⟨d, known, eq⟩ := Option.map_eq_some_iff.mp h
      obtain ⟨rfl, rfl⟩ := Prod.mk.inj eq
      exact ⟨name, congrArg _ (Text.eq_append_of_cutAt? cut), Scan.cutAt?_without cut,
        referenced?_eq_some_iff.mp known⟩
    · cases h
  · rintro ⟨name, eq, apart, known⟩
    rw [(List.cons.inj eq).2, Scan.cutAt?_append rest apart]
    simp only [referenced?_eq_some_iff.mpr known, Option.map_some]

theorem resolves_resolved (t : Text) : Resolves DenotesSigned t t.resolved := by
  fun_induction Text.resolved t with
  | case1 => exact .nil
  | case2 t d rest read _ ih => exact .reference (reference?_eq_some_iff.mp read) ih
  | case3 t none ih =>
    refine .kept (fun d rest refers => ?_) ih
    cases none.symm.trans (reference?_eq_some_iff.mpr refers)
  | case4 c t other ih =>
    refine .kept (fun d rest refers => ?_) ih
    obtain ⟨name, eq, _⟩ := refers
    exact other (List.cons.inj eq).1

theorem Resolves.eq_resolved {t s : Text} (resolves : Resolves DenotesSigned t s) : t.resolved = s := by
  induction resolves with
  | nil => rw [Text.resolved]
  | reference refers _ ih =>
    obtain ⟨name, rfl, own⟩ := refers
    rw [Text.resolved_reference (reference?_eq_some_iff.mpr ⟨name, rfl, own⟩), ih]
  | @kept t after c none _ ih =>
    by_cases ampersand : c = '&'
    · subst ampersand
      rw [Text.resolved_ampersand, ih]
      cases read : reference? t with
      | none => rfl
      | some found => exact absurd (reference?_eq_some_iff.mp read) (none _ _)
    · rw [Text.resolved_other ampersand, ih]

/-- The characters in the name of a code point. -/
theorem CodePoint.subset {sign name : Text} {c : Char} (code : CodePoint sign name c) :
    name ⊆ sign ++ ("#xX0123456789abcdefABCDEF" : Text) := by
  have digits {small digits : Text} (within : digits ⊆ small)
      (known : small ⊆ ("#xX0123456789abcdefABCDEF" : Text)) :
      sign ++ digits ⊆ sign ++ ("#xX0123456789abcdefABCDEF" : Text) :=
    List.append_subset.mpr ⟨List.subset_append_left _ _, fun _ member =>
      List.mem_append_right _ (known (within member))⟩
  have other {d : Char} (known : d ∈ ("#xX0123456789abcdefABCDEF" : Text)) :
      d ∈ sign ++ ("#xX0123456789abcdefABCDEF" : Text) := List.mem_append_right _ known
  cases code with
  | decimal own => exact List.cons_subset.mpr ⟨other (by decide), digits own.within (by decide)⟩
  | hexadecimal mark own =>
    refine List.cons_subset.mpr ⟨other (by decide), List.cons_subset.mpr ⟨?_, digits own.within (by decide)⟩⟩
    rcases mark with rfl | rfl
    · exact other (by decide)
    · exact other (by decide)

theorem Denotes.subset {name : Text} {c : Char} (denotes : Denotes name c) :
    name ⊆ ("ltgampquosnb#xX0123456789abcdefABCDEF" : Text) := by
  rcases denotes with named | code
  · have all : ∀ known ∈ namedCharacters, known.1 ⊆ ("ltgampquosnb#xX0123456789abcdefABCDEF" : Text) := by decide
    exact all _ named
  · exact fun _ member => (by decide : ("#xX0123456789abcdefABCDEF" : Text) ⊆ _) (code.subset member)

theorem not_denotes_of_signed {name : Text} {c d : Char} (signed : CodePoint ['+'] name c) : ¬ Denotes name d := by
  intro denotes
  have plus : '+' ∈ name := by
    cases signed with
    | decimal _ => simp
    | hexadecimal _ _ => simp
  exact absurd (denotes.subset plus) (by decide)

theorem DenotesSigned.ampersand_not_mem {name : Text} {c : Char} (denotes : DenotesSigned name c) : '&' ∉ name := by
  rcases denotes with plain | signed
  · exact fun member => absurd (plain.subset member) (by decide)
  · exact fun member => absurd (signed.subset member) (by decide)

namespace RefersAt

variable {denotes other : Text → Char → Prop} {t rest rest' : Text} {c d : Char}

theorem imp (all : ∀ name c, denotes name c → other name c) (refers : RefersAt denotes t c rest) :
    RefersAt other t c rest := by
  obtain ⟨name, eq, apart, own⟩ := refers
  exact ⟨name, eq, apart, all _ _ own⟩

theorem signed_or_not (refers : RefersAt DenotesSigned t c rest) :
    RefersAt Denotes t c rest ∨ RefersAt (CodePoint ['+']) t c rest := by
  obtain ⟨name, eq, apart, plain | signed⟩ := refers
  · exact .inl ⟨name, eq, apart, plain⟩
  · exact .inr ⟨name, eq, apart, signed⟩

/-- Where a reference ends and how it is named depends on the text only. -/
theorem same_name (refers : RefersAt denotes t c rest) (refers' : RefersAt other t d rest') :
    rest' = rest ∧ ∃ name, t = '&' :: (name ++ ';' :: rest) ∧ denotes name c ∧ other name d := by
  obtain ⟨name, rfl, apart, own⟩ := refers
  obtain ⟨name', eq, apart', own'⟩ := refers'
  have cut := Scan.cutAt?_append rest apart
  rw [(List.cons.inj eq).2, Scan.cutAt?_append rest' apart'] at cut
  obtain ⟨rfl, rfl⟩ := Prod.mk.inj (Option.some.inj cut)
  exact ⟨rfl, name', rfl, own, own'⟩

theorem not_signed (refers : RefersAt Denotes t c rest) : ¬ RefersAt (CodePoint ['+']) t d rest' := by
  intro signed
  obtain ⟨_, _, _, plain, own⟩ := refers.same_name signed
  exact not_denotes_of_signed own plain

end RefersAt

theorem HasSigned.of_cons {t : Text} {c : Char} (signed : HasSigned (c :: t))
    (front : ∀ d rest, ¬ RefersAt (CodePoint ['+']) (c :: t) d rest) : HasSigned t := by
  obtain ⟨before, later, d, rest, eq, own⟩ := signed
  cases before with
  | nil => exact absurd (show RefersAt _ (c :: t) d rest from eq ▸ own) (front d rest)
  | cons first before => exact ⟨before, later, d, rest, (List.cons.inj eq).2, own⟩

theorem HasSigned.of_append {before t : Text} (plain : '&' ∉ before) (signed : HasSigned (before ++ t)) :
    HasSigned t := by
  induction before with
  | nil => exact signed
  | cons c before ih =>
    obtain ⟨first, others⟩ : c ≠ '&' ∧ '&' ∉ before := by simpa [eq_comm] using plain
    refine ih others (signed.of_cons ?_)
    rintro d rest ⟨name, eq, _⟩
    exact first (List.cons.inj eq).1

theorem Resolves.of_append {denotes : Text → Char → Prop} {before t s : Text} (plain : '&' ∉ before)
    (resolves : Resolves denotes (before ++ t) s) : ∃ after, s = before ++ after ∧ Resolves denotes t after := by
  induction before generalizing s with
  | nil => exact ⟨s, rfl, resolves⟩
  | cons c before ih =>
    obtain ⟨first, others⟩ : c ≠ '&' ∧ '&' ∉ before := by simpa [eq_comm] using plain
    cases resolves with
    | reference refers _ =>
      obtain ⟨name, eq, _⟩ := refers
      exact absurd (List.cons.inj eq).1 first
    | kept _ inner =>
      obtain ⟨after, rfl, own⟩ := ih others inner
      exact ⟨after, rfl, own⟩

theorem Resolves.self {denotes : Text → Char → Prop} {t : Text} (plain : '&' ∉ t) : Resolves denotes t t := by
  induction t with
  | nil => exact .nil
  | cons c t ih =>
    obtain ⟨first, others⟩ : c ≠ '&' ∧ '&' ∉ t := by simpa [eq_comm] using plain
    refine .kept ?_ (ih others)
    rintro d rest ⟨name, eq, _⟩
    exact first (List.cons.inj eq).1

/-- A text resolves alike where the same references begin at each of its characters. -/
theorem Resolves.of_agreeing {denotes other : Text → Char → Prop} {t s : Text} (resolves : Resolves denotes t s)
    (agree : ∀ before later, t = before ++ later → ∀ c rest,
      RefersAt denotes later c rest ↔ RefersAt other later c rest) : Resolves other t s := by
  induction resolves with
  | nil => exact .nil
  | reference refers _ ih =>
    refine .reference ((agree [] _ rfl _ _).mp refers) (ih fun before later eq => ?_)
    obtain ⟨name, rfl, _⟩ := refers
    exact agree ('&' :: (name ++ ';' :: before)) later (by rw [eq]; simp)
  | @kept t _ c none _ ih =>
    refine .kept (fun d rest refers => none d rest ((agree [] _ rfl d rest).mpr refers)) (ih ?_)
    intro before later eq
    exact agree (c :: before) later (by rw [eq]; rfl)

/-- Without signs, what is read is what is well formed. -/
theorem resolves_iff_of_unsigned {t s : Text} (unsigned : ¬ HasSigned t) :
    Resolves DenotesSigned t s ↔ Resolves Denotes t s := by
  have agree (before later : Text) (eq : t = before ++ later) (c : Char) (rest : Text) :
      RefersAt DenotesSigned later c rest ↔ RefersAt Denotes later c rest := by
    refine ⟨fun refers => refers.signed_or_not.resolve_right fun signed => ?_, .imp fun _ _ => .inl⟩
    exact unsigned ⟨before, later, c, rest, eq, signed⟩
  exact ⟨fun resolves => resolves.of_agreeing agree,
    fun resolves => resolves.of_agreeing fun before later eq c rest => (agree before later eq c rest).symm⟩

/-- A reference with a sign is replaced by one character where all of it should be kept, and nothing that follows
makes up for it. -/
theorem length_of_resolves {t s s' : Text} (resolves : Resolves DenotesSigned t s) (proper : Resolves Denotes t s') :
    s.length ≤ s'.length ∧ (HasSigned t → s.length < s'.length) := by
  induction resolves generalizing s' with
  | nil =>
    cases proper with
    | nil =>
      refine ⟨Nat.le_refl _, ?_⟩
      rintro ⟨before, later, _, _, eq, name, rfl, _⟩
      cases (List.append_eq_nil_iff.mp eq.symm).2
    | reference refers _ =>
      obtain ⟨_, eq, _⟩ := refers
      cases eq
  | @reference t rest after c refers _ ih =>
    have both := refers.signed_or_not
    obtain ⟨name, rfl, _, own⟩ := refers
    have past : '&' :: (name ++ ';' :: rest) = '&' :: (name ++ [';'] ++ rest) := by simp
    have plain : '&' ∉ name ++ [';'] := by
      rw [List.mem_append, not_or]
      exact ⟨own.ampersand_not_mem, by decide⟩
    rw [past] at both proper ⊢
    rcases both with well_formed | signed
    · cases proper with
      | reference refers' proper =>
        obtain ⟨rfl, _⟩ := well_formed.same_name refers'
        obtain ⟨atMost, less⟩ := ih proper
        refine ⟨Nat.succ_le_succ atMost, fun signed => Nat.succ_lt_succ (less ?_)⟩
        exact (signed.of_cons fun _ _ => well_formed.not_signed).of_append plain
      | kept none _ => exact absurd well_formed (none _ _)
    · cases proper with
      | reference refers' _ => exact absurd signed refers'.not_signed
      | kept _ inner =>
        obtain ⟨later, rfl, proper⟩ := inner.of_append plain
        have atMost := (ih proper).1
        simp only [List.length_cons, List.length_append, List.length_nil]
        omega
  | @kept t after c none _ ih =>
    cases proper with
    | reference refers _ => exact absurd (refers.imp fun _ _ => .inl) (none _ _)
    | kept _ proper =>
      obtain ⟨atMost, less⟩ := ih proper
      refine ⟨Nat.succ_le_succ atMost, fun signed => Nat.succ_lt_succ (less ?_)⟩
      exact signed.of_cons fun d rest refers => none d rest (refers.imp fun _ _ => .inr)

/-- All well-formed references are replaced, by what they stand for, and everything else is kept, but for code points
with a plus sign: they are replaced, too, and a text is resolved as it should be just if it has none. -/
theorem references_resolved (t : Text) :
    (∀ s, t.resolved = s ↔ Resolves DenotesSigned t s) ∧
      ((∀ s, t.resolved = s ↔ Resolves Denotes t s) ↔ ¬ HasSigned t) := by
  have read (s : Text) : t.resolved = s ↔ Resolves DenotesSigned t s :=
    ⟨fun eq => eq ▸ resolves_resolved t, Resolves.eq_resolved⟩
  refine ⟨read, fun proper signed => ?_, fun unsigned s => (read s).trans (resolves_iff_of_unsigned unsigned)⟩
  have less := (length_of_resolves (resolves_resolved t) ((proper _).mp rfl)).2 signed
  exact Nat.lt_irrefl _ less

/-- A plus sign before the digits. -/
theorem plus_sign_resolved : Text.resolved "&#+65;" = ("A" : Text) ∧ Resolves Denotes "&#+65;" "&#+65;" ∧
    ¬ Resolves Denotes "&#+65;" "A" := by
  have refers : RefersAt (CodePoint ['+']) "&#+65;" 'A' [] :=
    ⟨"#+65", by decide, by decide, @CodePoint.decimal _ "65" _ ⟨by decide, by decide, by decide⟩⟩
  have read : Resolves DenotesSigned "&#+65;" "A" := .reference (refers.imp fun _ _ => .inr) .nil
  refine ⟨read.eq_resolved, ?_, fun proper => ?_⟩
  · exact .kept (fun _ _ well_formed => well_formed.not_signed refers) (.self (by decide))
  · have less := (length_of_resolves read proper).2 ⟨[], _, _, _, rfl, refers⟩
    exact Nat.lt_irrefl _ less

end MarkupTemplates
