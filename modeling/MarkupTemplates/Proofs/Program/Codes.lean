import MarkupTemplates.Directive.MacroHead
import MarkupTemplates.Marker
import MarkupTemplates.Program.Dialect
import MarkupTemplates.Proofs.ParsedTemplate.Coverage
import MarkupTemplates.Proofs.Text.Trim

namespace MarkupTemplates

/-- A text without the marks that enclose code. -/
def Text.Plain (t : Text) : Prop := ∀ c ∈ t, Marker.isCodeChar c = true

namespace Text

instance (t : Text) : Decidable t.Plain :=
  List.decidableBAll (fun c => Marker.isCodeChar c = true) t

theorem Plain.of_subset {s t : Text} (plain : t.Plain) (subset : s ⊆ t) : Plain s :=
  fun c member => plain c (subset member)

theorem Plain.append {s t : Text} (one : s.Plain) (two : t.Plain) : Plain (s ++ t) :=
  fun c member => (List.mem_append.mp member).elim (one c) (two c)

theorem Plain.cons {c : Char} {t : Text} (first : Marker.isCodeChar c = true) (plain : t.Plain) :
    Plain (c :: t) := by
  intro d member
  rcases List.mem_cons.mp member with rfl | member
  · exact first
  · exact plain d member

theorem parts_subset {mark : Char} {t part : Text} (member : part ∈ parts mark t) : part ⊆ t := by
  induction t generalizing part with
  | nil =>
    rw [List.mem_singleton.mp member]
    exact List.Subset.refl _
  | cons c t ih =>
    rw [parts] at member
    split at member
    · rcases List.mem_cons.mp member with rfl | member
      · exact List.nil_subset _
      · exact List.subset_cons_of_subset c (ih member)
    · split at member
      · rw [List.mem_singleton.mp member]
        exact List.cons_subset_cons c (List.nil_subset _)
      · next first rest eq =>
        rw [eq] at ih
        rcases List.mem_cons.mp member with rfl | member
        · exact List.cons_subset_cons c (ih List.mem_cons_self)
        · exact List.subset_cons_of_subset c (ih (List.mem_cons_of_mem _ member))

theorem Plain.joined {mark : Text} {texts : List Text} (plain_mark : mark.Plain)
    (plain : ∀ t ∈ texts, t.Plain) : Plain (joined mark texts) := by
  induction texts with
  | nil => exact fun c member => absurd member List.not_mem_nil
  | cons t texts ih =>
    have others := ih fun s member => plain s (List.mem_cons_of_mem _ member)
    have own := plain t List.mem_cons_self
    cases texts with
    | nil => simpa [Text.joined] using own
    | cons s texts => exact own.append (plain_mark.append others)

/-- What identifiers are made of. -/
theorem chars_of_isIdentifier {t : Text} (identifier : t.isIdentifier = true) :
    ∀ c ∈ t, (isLetterOrNumeral c || c = '_' || c = '$') = true := by
  have letter : ∀ c, isLetter c = true → isLetterOrNumeral c = true := by
    intro c inside
    unfold isLetter at inside
    unfold isLetterOrNumeral
    split at inside
    · next ascii =>
      rw [if_pos ascii, Char.isAlphanum, inside, Bool.true_or]
    · next beyond =>
      rw [if_neg beyond, inside, Bool.true_or]
  cases t with
  | nil => exact fun c member => absurd member List.not_mem_nil
  | cons c t =>
    simp only [isIdentifier, Bool.and_eq_true, List.all_eq_true] at identifier
    refine List.forall_mem_cons.mpr ⟨?_, identifier.2⟩
    rcases Bool.or_eq_true _ _ ▸ identifier.1 with first | dollar
    · rcases Bool.or_eq_true _ _ ▸ first with first | underscore
      · rw [letter c first, Bool.true_or, Bool.true_or]
      · rw [underscore, Bool.or_true, Bool.true_or]
    · rw [dollar, Bool.or_true]

theorem not_mem_of_isIdentifier {t : Text} (identifier : t.isIdentifier = true) {c : Char}
    (other : (isLetterOrNumeral c || c = '_' || c = '$') = false) : c ∉ t := fun member =>
  Bool.noConfusion (other.symm.trans (chars_of_isIdentifier identifier c member))

/-- Identifiers hold no marks. -/
theorem plain_of_isIdentifier {t : Text} (identifier : t.isIdentifier = true) : t.Plain := by
  intro c member
  have inside := chars_of_isIdentifier identifier c member
  rw [← Bool.not_eq_false]
  intro outside
  simp only [Marker.isCodeChar, Bool.and_eq_false_iff, bne_eq_false_iff_eq] at outside
  rcases outside with rfl | rfl <;> exact absurd inside (by decide)

end Text

theorem MacroHead.plain_name {directive value : Text} {head : MacroHead}
    (h : MacroHead.read directive value = .ok head) : head.name.Plain := by
  unfold read at h
  split at h
  · exact absurd h nofun
  · split at h
    · exact absurd h nofun
    · split at h
      · next identifier =>
        obtain rfl := Except.ok.inj h
        exact Text.plain_of_isIdentifier identifier
      · exact absurd h nofun

namespace Expression

theorem source_of_read {t : Text} {e : Expression} (h : read t = .ok e) : e.source = t.trim := by
  unfold read at h
  simp only at h
  split at h
  · obtain ⟨_, _, h⟩ := ok_of_bind h
    obtain ⟨_, _, eq⟩ := ok_of_bind h
    rw [← Except.ok.inj eq]
  · obtain ⟨_, _, eq⟩ := ok_of_bind h
    rw [← Except.ok.inj eq]

theorem read_trim (t : Text) : read t.trim = read t := by rw [read, Text.trim_trim, read]

/-- An expression is read again from the source that it keeps. -/
theorem read_source {t : Text} {e : Expression} (h : read t = .ok e) : read e.source = .ok e := by
  rw [source_of_read h, read_trim, h]

end Expression

namespace Program

theorem expressionCode_plain {word value code : Text} (h : expressionCode word value = .ok code)
    (plain_word : word.Plain) (plain : value.Plain) : code.Plain := by
  obtain ⟨e, read, rfl⟩ : ∃ e, Expression.read value = .ok e ∧ word ++ ':' :: e.source = code := by
    obtain ⟨e, read, eq⟩ := ok_of_bind h
    exact ⟨e, read, Except.ok.inj eq⟩
  rw [Expression.source_of_read read]
  exact plain_word.append (.cons (by decide) (plain.of_subset (Text.trim_subset value)))

theorem readAssignment_plain {separator : Char} {value var e : Text}
    (h : readAssignment separator value = .ok (var, e)) (plain : value.Plain) : var.Plain ∧ e.Plain := by
  unfold readAssignment at h
  split at h
  · exact absurd h nofun
  · next before after cut =>
    obtain ⟨_, _, eq⟩ := ok_of_bind h
    obtain ⟨rfl, rfl⟩ := Prod.mk.inj (Except.ok.inj eq)
    rw [Text.eq_append_of_cutAt? cut] at plain
    exact ⟨plain.of_subset (List.Subset.trans (Text.trim_subset before) (List.subset_append_left _ _)),
      plain.of_subset (List.Subset.trans (Text.trim_subset after) (List.subset_append_of_subset_right _
        (List.subset_cons_of_subset _ (List.Subset.refl _))))⟩

/-- How the code of a statement comes about from its value, with the names that are known before and after. -/
inductive Coded (value : Text) (symbols : SymbolTable) : Text → SymbolTable → Prop
  | condition {word code : Text} : word.Plain → expressionCode word value = .ok code →
      Coded value symbols code symbols
  | otherwise : Coded value symbols "else:" symbols
  | assignment {word var e : Text} {separator : Char} {after : SymbolTable} : word.Plain →
      readAssignment separator value = .ok (var, e) → declare symbols var false = .ok after →
      Coded value symbols (word ++ var ++ ':' :: e) after
  | parameters {after : SymbolTable} :
      declareAll symbols ((Text.parts ',' value).map Text.trim) = .ok after →
      Coded value symbols (("var:" : Text) ++ Text.joined [','] ((Text.parts ',' value).map Text.trim)) after

theorem coded_of_statement {directive : Directive} {symbols after : SymbolTable} {code : Text}
    (h : statementCode directive symbols = .ok (code, after)) : Coded directive.value symbols code after := by
  have condition : ∀ word : Text, word.Plain →
      (expressionCode word directive.value >>= fun text => pure (text, symbols)) = .ok (code, after) →
      Coded directive.value symbols code after := by
    intro word plain h
    obtain ⟨text, coded, eq⟩ := ok_of_bind h
    obtain ⟨rfl, rfl⟩ := Prod.mk.inj (Except.ok.inj eq)
    exact .condition plain coded
  have assignment : ∀ (word : Text) (separator : Char), word.Plain →
      (readAssignment separator directive.value >>= fun read =>
        declare symbols read.1 false >>= fun symbols => pure (word ++ read.1 ++ ':' :: read.2, symbols)) =
        .ok (code, after) → Coded directive.value symbols code after := by
    intro word separator plain h
    obtain ⟨⟨var, e⟩, read, h⟩ := ok_of_bind h
    obtain ⟨table, declared, eq⟩ := ok_of_bind h
    obtain ⟨rfl, rfl⟩ := Prod.mk.inj (Except.ok.inj eq)
    exact .assignment plain read declared
  unfold statementCode at h
  cases kind : directive.kind <;> rw [kind] at h
  case ifTrue => exact condition "if" (by decide) h
  case elseIf => exact condition "elseif" (by decide) h
  case otherwise =>
    obtain ⟨rfl, rfl⟩ := Prod.mk.inj (Except.ok.inj h)
    exact .otherwise
  case breakIf => exact condition "breakif" (by decide) h
  case forEach => exact assignment "foreach:" ':' (by decide) h
  case set => exact assignment "set:" '=' (by decide) h
  case var =>
    obtain ⟨table, declared, eq⟩ := ok_of_bind h
    obtain ⟨rfl, rfl⟩ := Prod.mk.inj (Except.ok.inj eq)
    exact .parameters declared
  all_goals cases h

/-- The code of a statement holds a mark only if its value does. -/
theorem statementCode_plain {directive : Directive} {symbols symbols' : SymbolTable} {code : Text}
    (h : statementCode directive symbols = .ok (code, symbols')) (plain : directive.value.Plain) : code.Plain := by
  cases coded_of_statement h with
  | condition plain_word coded => exact expressionCode_plain coded plain_word plain
  | otherwise => decide
  | assignment plain_word read _ =>
    obtain ⟨plain_var, plain_e⟩ := readAssignment_plain read plain
    exact (plain_word.append plain_var).append (.cons (by decide) plain_e)
  | parameters _ =>
    have word : Text.Plain "var:" := by decide
    refine word.append (.joined (by decide) fun name member => ?_)
    obtain ⟨part, inside, rfl⟩ := List.mem_map.mp member
    exact plain.of_subset (List.Subset.trans (Text.trim_subset part) (Text.parts_subset inside))

theorem endingCode_plain (name : Text) : (endingCode name).Plain := by
  unfold endingCode
  split
  · decide
  · exact fun c member => absurd member List.not_mem_nil

end Program

end MarkupTemplates
