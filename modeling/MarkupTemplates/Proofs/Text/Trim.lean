import MarkupTemplates.Text.Blank

namespace MarkupTemplates

theorem dropWhile_idem {α : Type} {p : α → Bool} {l first : List α} (part : first <+: l.dropWhile p) :
    first.dropWhile p = first := by
  cases first with
  | nil => rfl
  | cons a rest =>
    obtain ⟨more, eq⟩ := part
    have outside := List.head?_dropWhile_not p l
    rw [← eq, List.cons_append, List.head?_cons] at outside
    exact List.dropWhile_cons_of_neg (by simpa using outside)

namespace Text

theorem trim_subset (t : Text) : t.trim ⊆ t := by
  intro c member
  have inside := (List.dropWhile_sublist isBlank).subset (List.mem_reverse.mp member)
  exact (List.dropWhile_sublist isBlank).subset (List.mem_reverse.mp inside)

theorem trim_isPrefix (t : Text) : t.trim <+: t.trimStart := by
  have part := List.reverse_prefix.mpr (List.dropWhile_suffix (l := t.trimStart.reverse) isBlank)
  rwa [List.reverse_reverse] at part

theorem trim_isInfix (t : Text) : t.trim <:+: t :=
  t.trim_isPrefix.isInfix.trans (List.dropWhile_suffix isBlank).isInfix

theorem trim_trim (t : Text) : t.trim.trim = t.trim := by
  have start : t.trim.trimStart = t.trim := dropWhile_idem t.trim_isPrefix
  rw [trim, start]
  show (t.trim.reverse.dropWhile isBlank).reverse = t.trim
  rw [trim, trimEnd, List.reverse_reverse, dropWhile_idem (List.prefix_refl _)]

theorem trimStart_of_head {t : Text} (proper : ∀ c ∈ t.head?, isBlank c = false) : t.trimStart = t := by
  cases t with
  | nil => rfl
  | cons c t => exact List.dropWhile_cons_of_neg (by rw [proper c rfl]; exact Bool.false_ne_true)

theorem trim_of_ends {t : Text} (first : ∀ c ∈ t.head?, isBlank c = false) (last : ∀ c ∈ t.getLast?, isBlank c = false) :
    t.trim = t := by
  have stop : trimStart t.reverse = t.reverse := trimStart_of_head fun c member => last c (List.head?_reverse ▸ member)
  rw [trim, trimStart_of_head first]
  show List.reverse (trimStart t.reverse) = t
  rw [stop, List.reverse_reverse]

/-- What is left when a text is trimmed begins with no blank. -/
theorem head_of_trim {t rest : Text} {c : Char} (begins : t.trim = c :: rest) : isBlank c = false := by
  obtain ⟨more, eq⟩ := t.trim_isPrefix
  have outside := List.head?_dropWhile_not isBlank t
  rw [show t.dropWhile isBlank = t.trim ++ more from eq.symm, begins] at outside
  simpa using outside

theorem trim_blanks_append {blanks : Text} (blank : blanks.onlyBlanks = true) (t : Text) :
    trim (blanks ++ t) = t.trim := by
  rw [trim, trim, trimStart, trimStart, List.dropWhile_append_of_pos (List.all_eq_true.mp blank)]

theorem trimEnd_append_blanks {blanks : Text} (blank : blanks.onlyBlanks = true) (t : Text) :
    trimEnd (t ++ blanks) = t.trimEnd := by
  have reversed : ∀ c ∈ blanks.reverse, isBlank c = true :=
    fun c member => List.all_eq_true.mp blank c (List.mem_reverse.mp member)
  rw [trimEnd, trimEnd, List.reverse_append, List.dropWhile_append_of_pos reversed]

theorem trim_append_blanks {blanks : Text} (blank : blanks.onlyBlanks = true) (t : Text) :
    trim (t ++ blanks) = t.trim := by
  rw [trim, trim, trimStart, trimStart, List.dropWhile_append]
  split
  · next none =>
    have nothing : blanks.dropWhile isBlank = [] := by
      rw [← List.append_nil blanks, List.dropWhile_append_of_pos (List.all_eq_true.mp blank), List.dropWhile_nil]
    rw [nothing, List.isEmpty_iff.mp none]
  · exact trimEnd_append_blanks blank _

theorem exists_blanks_behind (t : Text) : ∃ blanks : Text, blanks.onlyBlanks = true ∧ t = t.trimEnd ++ blanks := by
  refine ⟨(t.reverse.takeWhile isBlank).reverse, ?_, ?_⟩
  · rw [onlyBlanks, List.all_reverse]
    exact List.all_takeWhile
  · rw [trimEnd, ← List.reverse_append, List.takeWhile_append_dropWhile, List.reverse_reverse]

theorem trimEnd_isPrefix (t : Text) : t.trimEnd <+: t :=
  have ⟨blanks, _, eq⟩ := t.exists_blanks_behind
  ⟨blanks, eq.symm⟩

theorem trim_trimEnd (t : Text) : trim t.trimEnd = t.trim := by
  obtain ⟨blanks, blank, eq⟩ := t.exists_blanks_behind
  exact (trim_append_blanks blank t.trimEnd).symm.trans (congrArg trim eq.symm)

/-- Behind a character that is no blank, blanks are left out only at the end. -/
theorem trim_cons {c : Char} (shown : isBlank c = false) (t : Text) : trim (c :: t) = c :: t.trimEnd := by
  rw [trim, trimStart_of_head (t := c :: t) fun d member => Option.some.inj member ▸ shown, trimEnd, List.reverse_cons,
    List.dropWhile_append]
  split
  · next none =>
    rw [List.dropWhile_cons_of_neg (by simp [shown]), trimEnd, List.isEmpty_iff.mp none]
    rfl
  · rw [List.reverse_append]
    rfl

end Text

end MarkupTemplates
