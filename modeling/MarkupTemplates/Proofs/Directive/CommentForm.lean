import MarkupTemplates.Directive.Comment
import MarkupTemplates.Proofs.Markup.Legible
import MarkupTemplates.Proofs.Text.Bytes

namespace MarkupTemplates

theorem Text.before?_append (t tail : Text) : Text.before? tail (t ++ tail) = some t := by
  rw [before?, List.reverse_append, after?_append, Option.map_some, List.reverse_reverse]

theorem Text.eq_append_of_before? {tail t rest : Text} (h : Text.before? tail t = some rest) :
    t = rest ++ tail := by
  obtain ⟨reversed, found, rfl⟩ := Option.map_eq_some_iff.mp h
  have split := congrArg List.reverse (Text.eq_append_of_after? found)
  rwa [List.reverse_reverse, List.reverse_append, List.reverse_reverse] at split

open CommentDirective (isNameChar isQuote)

/-- A directive as a comment spells it. -/
structure WrittenComment where
  gap : Text
  name : Text
  before : Text
  after : Text
  mark : Char
  value : Text
  lastMark : Char
  tail : Text

namespace WrittenComment

/-- What stands in front of the value, up to its quotation mark. -/
def head (w : WrittenComment) : Text :=
  ("<!--" : Text) ++ (w.gap ++ (w.name ++ (w.before ++ '=' :: w.after)))

/-- The value with what stands behind it. -/
def inner (w : WrittenComment) : Text := w.value ++ w.lastMark :: (w.tail ++ ("-->" : Text))

def text (w : WrittenComment) : Text := w.head ++ w.mark :: w.inner

theorem shape (w : WrittenComment) : w.text =
    ("<!--" : Text) ++ (w.gap ++ (w.name ++ (w.before ++ '=' :: (w.after ++ w.mark :: w.inner)))) := by
  simp only [text, head, List.append_assoc, List.cons_append]

theorem byteSize_text (w : WrittenComment) :
    w.text.byteSize = Text.byteSize (w.head ++ [w.mark]) + w.inner.byteSize := by
  rw [← Text.byteSize_append, List.append_assoc, List.singleton_append, text]

/-- What the comment at byte `start` says. -/
def reading (w : WrittenComment) (start : Nat) : CommentDirective :=
  { name := w.name, value := w.value
    nameStart := start + Text.byteSize (("<!--" : Text) ++ w.gap)
    valueStart := start + Text.byteSize (w.head ++ [w.mark]) }

/-- A comment that is read as a directive. The last quotation mark of the value is followed by blanks only. -/
structure Legible (w : WrittenComment) : Prop where
  gap : ∀ c ∈ w.gap, isGap c = true
  some_name : w.name ≠ []
  name : ∀ c ∈ w.name, isNameChar c = true
  before : ∀ c ∈ w.before, isGap c = true
  after : ∀ c ∈ w.after, isGap c = true
  mark : isQuote w.mark = true
  lastMark : isQuote w.lastMark = true
  tail : ∀ c ∈ w.tail, isBlank c = true

end WrittenComment

namespace CommentDirective

open WrittenComment (shape reading byteSize_text)

theorem not_isGap_of_isNameChar {c : Char} (letter : isNameChar c = true) : isGap c = false := by
  rw [← Bool.not_eq_true]
  intro gap
  simp only [isGap, Bool.or_eq_true, decide_eq_true_eq] at gap
  rcases gap with ((rfl | rfl) | rfl) | rfl <;> exact absurd letter (by decide)

theorem eq_of_isQuote {c : Char} (quote : isQuote c = true) : c = '"' ∨ c = '\'' := by
  simpa only [isQuote, Bool.or_eq_true, decide_eq_true_eq] using quote

theorem utf8Size_of_isQuote {c : Char} (quote : isQuote c = true) : c.utf8Size = 1 := by
  rcases eq_of_isQuote quote with rfl | rfl <;> rfl

theorem value?_eq_some_iff {t value : Text} : value? t = some value ↔
    ∃ mark tail, t = value ++ mark :: (tail ++ ("-->" : Text)) ∧ isQuote mark = true ∧
      ∀ c ∈ tail, isBlank c = true := by
  constructor
  · intro h
    unfold value? at h
    split at h
    · exact absurd h nofun
    · next inner ends =>
      rw [Text.eq_append_of_before? ends]
      have whole := congrArg List.reverse (List.takeWhile_append_dropWhile (p := isBlank) (l := inner.reverse))
      have blank : ∀ c ∈ inner.reverse.takeWhile isBlank, isBlank c = true := Scan.run_inside rfl
      generalize inner.reverse.takeWhile isBlank = blanks at whole blank
      rw [List.reverse_append, List.reverse_reverse] at whole
      split at h
      · next mark rest dropped =>
        split at h
        · next quote =>
          obtain rfl := Option.some.inj h
          refine ⟨mark, blanks.reverse, ?_, quote, fun c member => blank c (List.mem_reverse.mp member)⟩
          rw [← whole, dropped]
          simp only [List.reverse_cons, List.append_assoc, List.cons_append, List.nil_append]
        · exact absurd h nofun
      · exact absurd h nofun
  · rintro ⟨mark, tail, rfl, quote, blank⟩
    have stops : isBlank mark = false := by rcases eq_of_isQuote quote with rfl | rfl <;> decide
    have shape : value ++ mark :: (tail ++ ("-->" : Text)) = (value ++ mark :: tail) ++ ("-->" : Text) := by simp
    have ends := Scan.run_append (fun c member => blank c (List.mem_reverse.mp member))
      (stops_cons (t := value.reverse) stops)
    rw [value?, shape, Text.before?_append]
    simp only [List.reverse_append, List.reverse_cons, List.append_assoc, List.singleton_append]
    rw [(Prod.mk.inj ends).2]
    simp only [quote, if_true, List.reverse_reverse]

variable {start : Nat} {comment : Text} {d : CommentDirective} {w : WrittenComment}

theorem read?_text (legible : w.Legible) (start : Nat) : read? start w.text = some (w.reading start) := by
  have size := byteSize_text w
  obtain ⟨c, more, eq⟩ := List.exists_cons_of_ne_nil legible.some_name
  have letter : isNameChar c = true := legible.name c (by rw [eq]; exact List.mem_cons_self)
  -- each part is a run of its class, which the next part ends
  have gap (rest : Text) := Scan.run_append (t := w.name ++ rest) legible.gap (by
    rw [eq]
    exact stops_cons (not_isGap_of_isNameChar letter))
  have name (rest : Text) := Scan.run_append (t := w.before ++ '=' :: rest) legible.name (by
    cases before : w.before with
    | nil => exact stops_cons (by decide)
    | cons d _ =>
      have blank := legible.before d (by rw [before]; exact List.mem_cons_self)
      refine stops_cons (Bool.eq_false_iff.mpr fun inside => ?_)
      rw [not_isGap_of_isNameChar inside] at blank
      cases blank)
  have before (rest : Text) := Scan.run_append (t := '=' :: rest) legible.before (stops_cons (by decide))
  have after (rest : Text) := Scan.run_append (t := w.mark :: rest) legible.after (stops_cons (by
    rcases eq_of_isQuote legible.mark with quote | quote <;> (rw [quote]; decide)))
  have ends : value? w.inner = some w.value :=
    value?_eq_some_iff.mpr ⟨w.lastMark, w.tail, rfl, legible.lastMark, legible.tail⟩
  simp only [Scan.run, Prod.mk.injEq] at gap name before after
  unfold read?
  rw [size, w.shape, Text.after?_append]
  simp only [gap, name, before]
  split
  · next none => exact absurd none legible.some_name
  · next sign _ =>
    obtain ⟨_, rfl⟩ := List.cons.inj sign
    simp only [after, legible.mark, if_true, ends, Option.map_some, reading, Text.byteSize_append]
    simp only [Option.some.injEq, CommentDirective.mk.injEq, true_and]
    omega
  · next other => exact (other _ rfl).elim

theorem exists_text_of_read? (read : read? start comment = some d) :
    ∃ w : WrittenComment, w.Legible ∧ w.text = comment := by
  unfold read? at read
  split at read
  · exact absurd read nofun
  · next t opens =>
    obtain rfl := Text.eq_append_of_after? opens
    have gap := List.takeWhile_append_dropWhile (p := isGap) (l := t)
    have name := List.takeWhile_append_dropWhile (p := isNameChar) (l := t.dropWhile isGap)
    have before := List.takeWhile_append_dropWhile (p := isGap) (l := (t.dropWhile isGap).dropWhile isNameChar)
    simp only at read
    split at read
    · exact absurd read nofun
    · next afterSign assigned some_name =>
      have after := List.takeWhile_append_dropWhile (p := isGap) (l := afterSign)
      split at read
      · next mark inner opened =>
        split at read
        · next quote =>
          obtain ⟨value, ends, _⟩ := Option.map_eq_some_iff.mp read
          obtain ⟨lastMark, tail, rfl, quote', blank⟩ := value?_eq_some_iff.mp ends
          rw [opened] at after
          rw [assigned, ← after] at before
          rw [← before] at name
          rw [← name] at gap
          let w : WrittenComment :=
            { gap := t.takeWhile isGap, name := (t.dropWhile isGap).takeWhile isNameChar
              before := ((t.dropWhile isGap).dropWhile isNameChar).takeWhile isGap
              after := afterSign.takeWhile isGap, mark, value, lastMark, tail }
          exact ⟨w, ⟨Scan.run_inside rfl, some_name, Scan.run_inside rfl, Scan.run_inside rfl, Scan.run_inside rfl,
            quote, quote', blank⟩, w.shape.trans (congrArg _ gap)⟩
        · exact absurd read nofun
      · exact absurd read nofun
    · exact absurd read nofun

/-- A comment is read as a directive just if it is written like one. -/
theorem read?_eq_some_iff :
    read? start comment = some d ↔ ∃ w : WrittenComment, w.Legible ∧ w.text = comment ∧ w.reading start = d := by
  constructor
  · intro read
    obtain ⟨w, legible, rfl⟩ := exists_text_of_read? read
    exact ⟨w, legible, rfl, Option.some.inj ((read?_text legible start).symm.trans read)⟩
  · rintro ⟨w, legible, rfl, rfl⟩
    exact read?_text legible start

end CommentDirective

open CommentDirective (read? read?_text read?_eq_some_iff)

/-- The quotation marks of a comment are known from its text. -/
theorem WrittenComment.Legible.same_marks {w w' : WrittenComment} (legible : w.Legible) (legible' : w'.Legible)
    (same : w.text = w'.text) : w.mark = w'.mark ∧ w.lastMark = w'.lastMark := by
  have reads := (read?_text legible 0).symm.trans ((congrArg _ same).trans (read?_text legible' 0))
  obtain ⟨_, value, _, valueStart⟩ := CommentDirective.mk.inj (Option.some.inj reads)
  have split : (w.head ++ [w.mark]) ++ w.inner = (w'.head ++ [w'.mark]) ++ w'.inner := by
    rw [List.append_assoc, List.append_assoc]
    exact same
  obtain ⟨front, behind⟩ := Text.append_inj_of_byteSize split (Nat.add_left_cancel valueStart)
  rw [WrittenComment.inner, WrittenComment.inner, value] at behind
  exact ⟨List.singleton_inj.mp (List.append_inj' front rfl).2, (List.cons.inj (List.append_cancel_left behind)).1⟩

/-- A comment is read as a directive just if it is written like one, with the positions of its name and its value,
except that the value need not end with the quotation mark that it begins with: where it does not, the comment
should be none. -/
theorem comments_read_as_directives (start : Nat) (comment : Text) :
    (∀ d, read? start comment = some d ↔
      ∃ w : WrittenComment, w.Legible ∧ w.text = comment ∧ w.reading start = d) ∧
    ((∀ d, read? start comment = some d ↔
      ∃ w : WrittenComment, w.Legible ∧ w.lastMark = w.mark ∧ w.text = comment ∧ w.reading start = d) ↔
      ¬ ∃ w : WrittenComment, w.Legible ∧ w.text = comment ∧ w.lastMark ≠ w.mark) := by
  refine ⟨fun d => read?_eq_some_iff, fun proper => ?_, fun alike d => read?_eq_some_iff.trans ?_⟩
  · rintro ⟨w, legible, rfl, differ⟩
    obtain ⟨w', legible', alike, same, _⟩ := (proper _).mp (read?_text legible start)
    obtain ⟨first, last⟩ := legible'.same_marks legible same
    exact differ (last ▸ first ▸ alike)
  · constructor
    · rintro ⟨w, legible, text, reading⟩
      exact ⟨w, legible, Classical.not_not.mp fun differ => alike ⟨w, legible, text, differ⟩, text, reading⟩
    · rintro ⟨w, legible, _, text, reading⟩
      exact ⟨w, legible, text, reading⟩

/-- A value between two different quotation marks. -/
theorem different_marks_read :
    let comment : Text := "<!--set=\"x'-->"
    read? 0 comment = some ⟨"set", "x", 4, 9⟩ ∧
      ¬ ∃ w : WrittenComment, w.Legible ∧ w.lastMark = w.mark ∧ w.text = comment := by
  intro comment
  let w : WrittenComment := ⟨[], "set", [], [], '"', "x", '\'', []⟩
  have none {p : Char → Bool} (c : Char) (member : c ∈ ([] : Text)) : p c = true := absurd member List.not_mem_nil
  have legible : w.Legible := ⟨none, by decide, List.all_eq_true.mp rfl, none, none, rfl, rfl, none⟩
  refine ⟨read?_text legible 0, ?_⟩
  rintro ⟨w', legible', alike, text⟩
  obtain ⟨first, last⟩ := legible'.same_marks legible text
  rw [first, last] at alike
  exact absurd alike (by decide)

end MarkupTemplates
