import Mathlib.Data.List.Infix
import MarkupTemplates.ParsedTemplate.MacroBody
import MarkupTemplates.Proofs.Directive.CommentForm
import MarkupTemplates.Proofs.Markup.Cutting

namespace MarkupTemplates

namespace Text

/-- A mark does not reach over a character that it does not hold. -/
theorem infix_append_cons {mark s t : Text} {c : Char} (apart : c ∉ mark) (inside : mark <:+: s ++ c :: t) :
    mark <:+: s ∨ mark <:+: t := by
  obtain ⟨before, after, eq⟩ := inside
  rw [List.append_assoc] at eq
  rcases List.append_eq_append_iff.mp eq with ⟨rest, rfl, split⟩ | ⟨rest, rfl, split⟩
  · rcases List.append_eq_append_iff.mp split with ⟨more, rfl, _⟩ | ⟨more, rfl, cut⟩
    · exact .inl ⟨before, more, List.append_assoc ..⟩
    · cases more with
      | nil => exact .inl ⟨before, [], by rw [List.append_nil, List.append_nil]⟩
      | cons d more =>
        obtain ⟨rfl, _⟩ := List.cons.inj cut
        exact absurd (by simp) apart
  · cases rest with
    | nil =>
      cases mark with
      | nil => exact .inl (List.nil_infix)
      | cons d mark =>
        obtain ⟨rfl, _⟩ := List.cons.inj split
        exact absurd List.mem_cons_self apart
    | cons d rest =>
      obtain ⟨_, rfl⟩ := List.cons.inj split
      exact .inr ⟨rest, after, List.append_assoc ..⟩

theorem cut?_mark {mark : Text} (some_mark : mark ≠ []) (rest : Text) : cut? mark (mark ++ rest) = some ([], rest) := by
  obtain ⟨m, more, rfl⟩ := List.exists_cons_of_ne_nil some_mark
  have read := after?_append (m :: more) rest
  rw [List.cons_append] at read
  rw [List.cons_append, cut?, read]

/-- The first occurrence of a mark is behind a text that does not hold it, and behind a character that is
none of its own. -/
theorem cut?_past {mark s : Text} {c : Char} (some_mark : mark ≠ []) (apart : c ∉ mark) (none : ¬ mark <:+: s)
    (rest : Text) : cut? mark (s ++ c :: (mark ++ rest)) = some (s ++ [c], rest) := by
  induction s with
  | nil =>
    have missing : after? mark (c :: (mark ++ rest)) = Option.none := by
      obtain ⟨m, more, rfl⟩ := List.exists_cons_of_ne_nil some_mark
      have other : m ≠ c := by
        rintro rfl
        exact apart List.mem_cons_self
      rw [after?, if_neg other]
    rw [List.nil_append, cut?, missing]
    simp only [cut?_mark some_mark, Option.map_some, List.nil_append]
  | cons d s ih =>
    have missing : after? mark (d :: (s ++ c :: (mark ++ rest))) = Option.none := by
      cases read : after? mark (d :: (s ++ c :: (mark ++ rest))) with
      | none => rfl
      | some after =>
        have split := eq_append_of_after? read
        rcases List.append_eq_append_iff.mp (show (d :: s) ++ c :: (mark ++ rest) = mark ++ after from split)
          with ⟨more, rfl, cut⟩ | ⟨more, eq, _⟩
        · cases more with
          | nil => exact absurd (by rw [List.append_nil]) none
          | cons e more =>
            obtain ⟨rfl, _⟩ := List.cons.inj cut
            exact absurd (by simp) apart
        · exact absurd ⟨[], more, by rw [eq, List.nil_append]⟩ none
    rw [List.cons_append, cut?, missing]
    simp only [ih fun inside => none (List.infix_cons inside), Option.map_some, List.cons_append]

theorem not_infix_of_cut?_eq_none {mark t : Text} (some_mark : mark ≠ []) (none : cut? mark t = none) :
    ¬ mark <:+: t := by
  induction t with
  | nil => exact fun inside => some_mark (List.infix_nil.mp inside)
  | cons c t ih =>
    rw [cut?] at none
    split at none
    · cases none
    · next missing =>
      rw [Option.map_eq_none_iff] at none
      intro inside
      rcases List.infix_cons_iff.mp inside with ⟨after, eq⟩ | inside
      · rw [← eq, after?_append] at missing
        cases missing
      · exact ih none inside

/-- Nothing in front of the first occurrence of a mark holds the mark. -/
theorem not_infix_of_cut? {mark t before rest : Text} (some_mark : mark ≠ [])
    (found : cut? mark t = some (before, rest)) : ¬ mark <:+: before := by
  induction t generalizing before with
  | nil => cases found
  | cons c t ih =>
    rw [cut?] at found
    split at found
    · obtain ⟨rfl, _⟩ := Prod.mk.inj (Option.some.inj found)
      exact fun inside => some_mark (List.infix_nil.mp inside)
    · next missing =>
      obtain ⟨⟨before', rest'⟩, later, eq⟩ := Option.map_eq_some_iff.mp found
      obtain ⟨rfl, rfl⟩ := Prod.mk.inj eq
      intro inside
      rcases List.infix_cons_iff.mp inside with ⟨after, eq⟩ | inside
      · have here : c :: t = mark ++ (after ++ mark ++ rest') := by
          rw [eq_append_of_cut? later, ← List.append_assoc, ← List.append_assoc, eq]
          rfl
        rw [here, after?_append] at missing
        cases missing
      · exact ih later inside

/-- Behind the first occurrence of a mark comes all that follows any other. -/
theorem exists_cut?_of_append {mark : Text} (some_mark : mark ≠ []) (before after : Text) :
    ∃ first rest, cut? mark (before ++ (mark ++ after)) = some (first, rest) ∧ after <:+ rest := by
  induction before with
  | nil => exact ⟨[], after, cut?_mark some_mark after, List.suffix_refl after⟩
  | cons c before ih =>
    rw [List.cons_append, cut?]
    cases found : after? mark (c :: (before ++ (mark ++ after))) with
    | none =>
      obtain ⟨first, rest, cut, behind⟩ := ih
      exact ⟨c :: first, rest, by simp only [cut, Option.map_some], behind⟩
    | some rest =>
      have whole := eq_append_of_after? found
      refine ⟨[], rest, rfl, ?_⟩
      -- both are what the text ends with, and the mark is not shorter here
      have ends : after <:+ c :: (before ++ (mark ++ after)) := ⟨c :: (before ++ mark), by simp⟩
      refine List.suffix_of_suffix_length_le ends ⟨mark, whole.symm⟩ ?_
      have size := congrArg List.length whole
      simp only [List.length_cons, List.length_append] at size
      omega

end Text

/-- What ends a comment. -/
def commentEnd : Text := "-->"

/-- What stands between the marks of a comment does not hold the mark that ends it. -/
def Token.SoundComment : Token → Prop
  | comment text => ∀ inner, text = ("<!--" : Text) ++ (inner ++ commentEnd) → ¬ commentEnd <:+: inner
  | _ => True

namespace Scan

theorem token?_soundComment {t rest : Text} {token : Token} (h : token? t = some (token, rest)) :
    token.SoundComment := by
  have other {opening closing : Text} (h : construct? opening closing .plain t = some (token, rest)) :
      token.SoundComment := by
    obtain ⟨inner, _, eq⟩ := Option.map_eq_some_iff.mp h
    obtain ⟨rfl, _⟩ := Prod.mk.inj eq
    trivial
  simp only [token?, Option.orElse_eq_orElse, Option.orElse_eq_or, Option.or_eq_some_iff] at h
  obtain h | ⟨_, h | ⟨_, h | ⟨_, h | ⟨_, h | ⟨_, h | ⟨_, h⟩⟩⟩⟩⟩⟩ := h
  · obtain ⟨all, _, eq⟩ := Option.map_eq_some_iff.mp h
    obtain ⟨rfl, _⟩ := Prod.mk.inj eq
    intro inner split
    replace split : (through commentEnd all).1 = inner ++ commentEnd := List.append_cancel_left split
    unfold through at split
    split at split
    · next found =>
      rw [← List.append_cancel_right split]
      exact Text.not_infix_of_cut? (by decide) found
    · next none =>
      intro inside
      refine Text.not_infix_of_cut?_eq_none (by decide) none (inside.trans ?_)
      exact ⟨[], commentEnd, by rw [List.nil_append]; exact split.symm⟩
  · exact other h
  · exact other h
  · exact other h
  · obtain ⟨name, gap, rfl⟩ := endTag?_form h
    trivial
  · obtain ⟨tag, rfl⟩ | ⟨tag, content, rfl⟩ := element?_form h <;> trivial
  · obtain ⟨c, s, rfl⟩ := plain?_form h
    trivial

theorem tokens_soundComment (t : Text) : ∀ token ∈ tokens t, token.SoundComment := by
  fun_induction tokens t with
  | case1 t token rest h _ ih =>
    intro other member
    rcases List.mem_cons.mp member with rfl | later
    · exact token?_soundComment h
    · exact ih other later
  | case2 => exact fun token member => absurd member List.not_mem_nil

/-- A comment that ends behind a character of its own reads as itself, whatever follows it. -/
theorem token?_comment {s : Text} {c : Char} (apart : c ∉ commentEnd) (none : ¬ commentEnd <:+: s)
    (rest : Text) : token? (("<!--" : Text) ++ (s ++ c :: commentEnd) ++ rest) =
      some (.comment (("<!--" : Text) ++ (s ++ c :: commentEnd)), rest) := by
  have cut := Text.cut?_past (by decide) apart none rest
  have read : construct? "<!--" "-->" .comment (("<!--" : Text) ++ (s ++ c :: commentEnd) ++ rest) =
      some (.comment (("<!--" : Text) ++ (s ++ c :: commentEnd)), rest) := by
    have closed : through "-->" (s ++ c :: commentEnd ++ rest) = (s ++ c :: commentEnd, rest) := by
      rw [List.append_assoc, List.cons_append, through]
      simp only [show Text.cut? ("-->" : Text) _ = _ from cut, List.append_assoc, List.singleton_append]
      rfl
    rw [construct?, List.append_assoc, Text.after?_append, Option.map_some, closed]
  rw [token?, read]
  rfl

end Scan

namespace MacroBody

/-- The comment that declares the parameters of a macro. -/
def declaringComment (var parameters : Text) : Text :=
  ("<!--" : Text) ++ var ++ '=' :: commentQuoted parameters ++ ("-->" : Text)

theorem commentQuoted_eq (t : Text) :
    ∃ mark, (mark = '"' ∨ mark = '\'') ∧ commentQuoted t = mark :: t ++ [mark] := by
  rw [commentQuoted]
  refine ⟨_, ?_, rfl⟩
  split
  · exact .inr rfl
  · exact .inl rfl

/-- The comment that declares parameters is one comment, as long as no mark that ends a comment is among
the parameters. -/
theorem token?_declaringComment {var parameters : Text} (word : ∀ c ∈ var, isAttributeNameChar c = true)
    (none : ¬ commentEnd <:+: parameters) (rest : Text) : Scan.token? (declaringComment var parameters ++ rest) =
      some (.comment (declaringComment var parameters), rest) := by
  obtain ⟨mark, quote, quoted⟩ := commentQuoted_eq parameters
  have apart : mark ∉ commentEnd := by
    rcases quote with rfl | rfl <;> decide
  have inner : ¬ commentEnd <:+: var ++ '=' :: (mark :: parameters) := by
    intro inside
    rcases Text.infix_append_cons (by decide) inside with inside | inside
    · have bracket : '>' ∈ var := inside.subset (by decide)
      exact absurd (word '>' bracket) (by decide)
    · rcases Text.infix_append_cons (s := []) apart inside with inside | inside
      · exact absurd (List.infix_nil.mp inside) (by decide)
      · exact none inside
  have spelled : declaringComment var parameters =
      ("<!--" : Text) ++ ((var ++ '=' :: (mark :: parameters)) ++ mark :: commentEnd) := by
    simp only [declaringComment, quoted, commentEnd, List.append_assoc, List.cons_append, List.nil_append]
  rw [spelled]
  exact Scan.token?_comment apart inner rest

theorem tokens_declaringComment {var parameters : Text} (word : ∀ c ∈ var, isAttributeNameChar c = true)
    (none : ¬ commentEnd <:+: parameters) (rest : Text) : Scan.tokens (declaringComment var parameters ++ rest) =
      .comment (declaringComment var parameters) :: Scan.tokens rest :=
  Scan.tokens_of_some (token?_declaringComment word none rest)

end MacroBody

namespace CommentDirective

/-- The value of a directive is a stretch of what stands between the marks of its comment. -/
theorem read?_inner {start : Nat} {comment : Text} {found : CommentDirective}
    (h : read? start comment = some found) :
    ∃ inner, comment = ("<!--" : Text) ++ (inner ++ commentEnd) ∧ found.value <:+: inner := by
  obtain ⟨w, _, rfl, rfl⟩ := read?_eq_some_iff.mp h
  refine ⟨w.gap ++ (w.name ++ (w.before ++ '=' :: (w.after ++ w.mark :: (w.value ++ w.lastMark :: w.tail)))), ?_, ?_⟩
  · simp only [w.shape, WrittenComment.inner, List.append_assoc, List.cons_append]
    rfl
  · refine ⟨w.gap ++ (w.name ++ (w.before ++ '=' :: (w.after ++ [w.mark]))), w.lastMark :: w.tail, ?_⟩
    simp [WrittenComment.reading]

end CommentDirective

end MarkupTemplates
