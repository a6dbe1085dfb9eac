import Mathlib.Data.List.Forall2
import MarkupTemplates.Proofs.Markup.Comments
import MarkupTemplates.Proofs.Program.Misreadings

namespace MarkupTemplates

/-- The first expression that is found is not opened before, and not closed before. -/
theorem interpolation?_inversion {t before expression rest : Text}
    (found : interpolation? t = some (before, expression, rest)) :
    ¬ ['$', '\x7b'] <:+: before ∧ '\x7d' ∉ expression := by
  unfold interpolation? at found
  split at found
  · next cut =>
    obtain ⟨⟨own, behind⟩, closed, eq⟩ := Option.map_eq_some_iff.mp found
    obtain ⟨rfl, rest_eq⟩ := Prod.mk.inj eq
    obtain ⟨rfl, _⟩ := Prod.mk.inj rest_eq
    exact ⟨Text.not_infix_of_cut? (by decide) cut, Scan.cutAt?_without closed⟩
  · cases found

/-- Where no expression is found, none that is opened is closed. -/
theorem unclosed_of_interpolation?_eq_none {before after : Text}
    (none : interpolation? (before ++ '$' :: '\x7b' :: after) = none) : '\x7d' ∉ after := by
  intro closed
  have some_mark : (['$', '\x7b'] : Text) ≠ [] := List.cons_ne_nil _ _
  obtain ⟨first, rest, cut, behind⟩ := Text.exists_cut?_of_append some_mark before after
  obtain ⟨expression, more, split, apart⟩ := List.eq_append_cons_of_mem (behind.subset closed)
  unfold interpolation? at none
  rw [show '$' :: '\x7b' :: after = ['$', '\x7b'] ++ after from rfl, cut] at none
  simp only [split, Scan.cutAt?_append more apart, Option.map_some] at none
  cases none

/-- A stretch of a text: plain text, or an expression in its brackets. -/
inductive Fragment where
  | text (t : Text)
  | value (expression : Text)
  deriving DecidableEq, Repr

namespace Fragment

/-- The fragment as it stands in the text. -/
def written : Fragment → Text
  | text t => t
  | value expression => '$' :: '\x7b' :: (expression ++ ['\x7d'])

def spelled (fragments : List Fragment) : Text := fragments.flatMap written

/-- Behind that much of the text one of the expressions begins. -/
def StartsValue (fragments : List Fragment) (before : Text) : Prop :=
  ∃ first expression rest, fragments = first ++ value expression :: rest ∧ before = spelled first

/-- That much of the text ends inside one of the expressions, behind its dollar sign. -/
def InsideValue (fragments : List Fragment) (before : Text) : Prop :=
  ∃ first expression rest inner, fragments = first ++ value expression :: rest ∧ before = spelled first ++ inner ∧
    inner ≠ [] ∧ inner.length < (value expression).written.length

/-- Text that is there, or an expression that ends with the first closing brace. -/
def Sound : Fragment → Prop
  | text t => t ≠ []
  | value expression => '\x7d' ∉ expression

/-- Fragments that make up a text. Wherever an expression is opened that is closed somewhere, one of them begins or
has begun, and there is no text behind another. -/
structure Tiles (fragments : List Fragment) (t : Text) : Prop where
  spells : spelled fragments = t
  sound : ∀ fragment ∈ fragments, fragment.Sound
  opened : ∀ before after, t = before ++ '$' :: '\x7b' :: after → '\x7d' ∈ after →
    StartsValue fragments before ∨ InsideValue fragments before
  plain : ∀ first s rest, fragments = first ++ text s :: rest →
    ∀ before after, s = before ++ '$' :: '\x7b' :: after → '\x7d' ∉ after ++ spelled rest
  apart : ∀ first s s' rest, fragments ≠ first ++ text s :: text s' :: rest

/-- What the program does for a fragment. -/
inductive Gives : Fragment → Statement → Prop
  | text {t : Text} : Gives (text t) (.text t)
  | value {expression : Text} {e : Expression} : Expression.read expression = .ok e →
      Gives (value expression) (.value e)

/-- The first expression among fragments that cannot be read: the fragments in front of it, its text and what is wrong
with it. -/
structure FirstUnread (fragments first : List Fragment) (expression : Text) (cause : CodeError) : Prop where
  divided : ∃ rest, fragments = first ++ value expression :: rest
  readable : ∀ earlier, value earlier ∈ first → ∃ e, Expression.read earlier = .ok e
  unread : Expression.read expression = .error cause

theorem spelled_cons (fragment : Fragment) (fragments : List Fragment) :
    spelled (fragment :: fragments) = fragment.written ++ spelled fragments := List.flatMap_cons

theorem spelled_append (fragments others : List Fragment) :
    spelled (fragments ++ others) = spelled fragments ++ spelled others := List.flatMap_append

theorem Sound.some_written {fragment : Fragment} (sound : fragment.Sound) : fragment.written ≠ [] := by
  cases fragment with
  | text t => exact sound
  | value expression => exact List.cons_ne_nil _ _

/-- Of two beginnings of a list that are not the same, one is longer. -/
theorem eq_of_neither_longer {α : Type} {l l' rest rest' : List α} (both : l ++ rest = l' ++ rest')
    (longer : ∀ x more, l' ≠ l ++ x :: more) (shorter : ∀ x more, l ≠ l' ++ x :: more) : l = l' := by
  rcases List.append_eq_append_iff.mp both with ⟨more, split, _⟩ | ⟨more, split, _⟩
  · cases more with
    | nil => exact (split.trans (List.append_nil l)).symm
    | cons x more => exact absurd split (longer x more)
  · cases more with
    | nil => exact split.trans (List.append_nil l')
    | cons x more => exact absurd split (shorter x more)

/-- An opening that reaches into a text behind it reaches over all of what is in front of that text, or over nothing. -/
theorem opening_cases {front t after : Text} (eq : '$' :: '\x7b' :: after = front ++ t)
    (other : t.head? ≠ some '\x7b') : front = [] ∨ ∃ behind, front = '$' :: '\x7b' :: behind := by
  cases front with
  | nil => exact .inl rfl
  | cons c front =>
    obtain ⟨rfl, next⟩ := List.cons.inj eq
    cases front with
    | nil =>
      have begins : t.head? = some '\x7b' := (congrArg List.head? next).symm
      exact absurd begins other
    | cons d front =>
      obtain ⟨rfl, _⟩ := List.cons.inj next
      exact .inr ⟨front, rfl⟩

section

variable {fragments : List Fragment} {fragment : Fragment} {before : Text}

theorem StartsValue.cons (starts : StartsValue fragments before) (fragment : Fragment) :
    StartsValue (fragment :: fragments) (fragment.written ++ before) := by
  obtain ⟨first, expression, rest, rfl, rfl⟩ := starts
  exact ⟨fragment :: first, expression, rest, rfl, (spelled_cons fragment first).symm⟩

theorem InsideValue.cons (inside : InsideValue fragments before) (fragment : Fragment) :
    InsideValue (fragment :: fragments) (fragment.written ++ before) := by
  obtain ⟨first, expression, rest, inner, rfl, rfl, some_inner, less⟩ := inside
  refine ⟨fragment :: first, expression, rest, inner, rfl, ?_, some_inner, less⟩
  rw [spelled_cons, List.append_assoc]

theorem StartsValue.of_cons (starts : StartsValue (fragment :: fragments) (fragment.written ++ before))
    (some_written : fragment.written ≠ []) : StartsValue fragments before := by
  obtain ⟨first, expression, rest, split, eq⟩ := starts
  cases first with
  | nil => exact absurd (List.append_eq_nil_iff.mp eq).1 some_written
  | cons own first =>
    obtain ⟨rfl, rfl⟩ := List.cons.inj split
    rw [spelled_cons] at eq
    exact ⟨first, expression, rest, rfl, List.append_cancel_left eq⟩

theorem InsideValue.of_cons (inside : InsideValue (fragment :: fragments) (fragment.written ++ before)) :
    InsideValue fragments before := by
  obtain ⟨first, expression, rest, inner, split, eq, some_inner, less⟩ := inside
  cases first with
  | nil =>
    obtain ⟨rfl, _⟩ := List.cons.inj split
    rw [spelled, List.flatMap_nil, List.nil_append] at eq
    rw [← eq, List.length_append] at less
    exact absurd less (by omega)
  | cons own first =>
    obtain ⟨rfl, rfl⟩ := List.cons.inj split
    rw [spelled_cons, List.append_assoc] at eq
    exact ⟨first, expression, rest, inner, rfl, List.append_cancel_left eq, some_inner, less⟩

end

namespace Tiles

variable {fragments others : List Fragment} {fragment : Fragment} {t s s' expression : Text}

theorem nil : Tiles [] [] where
  spells := rfl
  sound _ member := absurd member List.not_mem_nil
  opened before after eq := by simp at eq
  plain first s rest eq := by simp at eq
  apart first s s' rest eq := by simp at eq

/-- A text in which no expression is opened and closed is a single fragment. -/
theorem last (some_text : s ≠ []) (unclosed : ∀ before after, s = before ++ '$' :: '\x7b' :: after → '\x7d' ∉ after) :
    Tiles [text s] s where
  spells := List.append_nil s
  sound := List.forall_mem_singleton.mpr some_text
  opened before after eq closed := absurd closed (unclosed before after eq)
  plain first u rest split before after eq := by
    cases first with
    | nil =>
      obtain ⟨own, rfl⟩ := List.cons.inj split
      obtain rfl := Fragment.text.inj own
      rw [spelled, List.flatMap_nil, List.append_nil]
      exact unclosed before after eq
    | cons _ first => simp at split
  apart first u u' rest split := by cases first <;> simp at split

/-- An expression in front. -/
theorem value (tiles : Tiles fragments t) (unclosed : '\x7d' ∉ expression) :
    Tiles (.value expression :: fragments) ((Fragment.value expression).written ++ t) where
  spells := by rw [spelled_cons, tiles.spells]
  sound := List.forall_mem_cons.mpr ⟨unclosed, tiles.sound⟩
  opened before after eq closed := by
    rcases List.append_eq_append_iff.mp eq with ⟨later, rfl, behind⟩ | ⟨rest, own, behind⟩
    · exact (tiles.opened later after behind closed).imp (·.cons _) (·.cons _)
    · cases rest with
      | nil =>
        rw [List.append_nil] at own
        have here := tiles.opened [] after behind.symm closed
        rw [← own, ← List.append_nil (Fragment.written _)]
        exact here.imp (·.cons _) (·.cons _)
      | cons c rest =>
        cases before with
        | nil => exact .inl ⟨[], expression, fragments, rfl, rfl⟩
        | cons d before =>
          refine .inr ⟨[], expression, fragments, d :: before, rfl, rfl, List.cons_ne_nil _ _, ?_⟩
          rw [own, List.length_append]
          exact Nat.lt_add_of_pos_right (Nat.succ_pos _)
  plain first u rest split := by
    cases first with
    | nil => exact absurd (List.cons.inj split).1 nofun
    | cons _ first => exact tiles.plain first u rest (List.cons.inj split).2
  apart first u u' rest split := by
    cases first with
    | nil => exact absurd (List.cons.inj split).1 nofun
    | cons _ first => exact tiles.apart first u u' rest (List.cons.inj split).2

/-- Text in front of an expression, with nothing in it that opens one. -/
theorem text (tiles : Tiles (.value expression :: fragments) t) (some_text : s ≠ [])
    (unopened : ¬ ['$', '\x7b'] <:+: s) : Tiles (.text s :: .value expression :: fragments) (s ++ t) where
  spells := by
    rw [spelled_cons, tiles.spells]
    rfl
  sound := List.forall_mem_cons.mpr ⟨some_text, tiles.sound⟩
  opened before after eq closed := by
    have begins : t.head? ≠ some '\x7b' := by
      rw [← tiles.spells]
      exact fun same => absurd (Option.some.inj same) (by decide)
    have later {more : Text} (behind : t = more ++ '$' :: '\x7b' :: after) :=
      (tiles.opened more after behind closed).imp (·.cons (.text s)) (·.cons (.text s))
    rcases List.append_eq_append_iff.mp eq with ⟨more, rfl, behind⟩ | ⟨rest, own, behind⟩
    · exact later behind
    · rcases opening_cases behind begins with rfl | ⟨more, rfl⟩
      · rw [List.append_nil] at own
        subst own
        have here := @later [] behind.symm
        rwa [Fragment.written, List.append_nil] at here
      · exact absurd ⟨before, more, by simp [own]⟩ unopened
  plain first u rest split before after eq := by
    cases first with
    | nil =>
      obtain ⟨own, _⟩ := List.cons.inj split
      obtain rfl := Fragment.text.inj own
      exact absurd ⟨before, after, by rw [eq]; simp⟩ unopened
    | cons _ first => exact tiles.plain first u rest (List.cons.inj split).2 before after eq
  apart first u u' rest split := by
    cases first with
    | nil => exact absurd (List.cons.inj (List.cons.inj split).2).1 nofun
    | cons _ first => exact tiles.apart first u u' rest (List.cons.inj split).2

/-- What comes behind the first fragment is made up of the others. -/
theorem tail (tiles : Tiles (fragment :: fragments) t) : Tiles fragments (spelled fragments) where
  spells := rfl
  sound := (List.forall_mem_cons.mp tiles.sound).2
  opened before after eq closed := by
    have some_written := (tiles.sound fragment List.mem_cons_self).some_written
    have whole : t = (fragment.written ++ before) ++ '$' :: '\x7b' :: after := by
      rw [← tiles.spells, spelled_cons, eq, List.append_assoc]
    exact (tiles.opened _ after whole closed).imp (·.of_cons some_written) (·.of_cons)
  plain first s rest split := tiles.plain (fragment :: first) s rest (congrArg _ split)
  apart first s s' rest split := tiles.apart (fragment :: first) s s' rest (congrArg _ split)

theorem some_of_cons (tiles : Tiles (fragment :: fragments) t) : t ≠ [] := by
  rw [← tiles.spells, spelled_cons]
  exact fun none => (tiles.sound fragment List.mem_cons_self).some_written (List.append_eq_nil_iff.mp none).1

/-- A text and what follows it do not make up an opening. -/
theorem head_behind_text (tiles : Tiles (.text s :: fragments) t) : (spelled fragments).head? ≠ some '\x7b' := by
  cases fragments with
  | nil => exact nofun
  | cons next fragments =>
    cases next with
    | text s' => exact absurd rfl (tiles.apart [] s s' fragments)
    | value expression => exact fun same => absurd (Option.some.inj same) (by decide)

/-- Texts do not go on where an expression begins. -/
theorem text_not_longer (tiles : Tiles (.text s :: fragments) t) (other : Tiles (.text s' :: others) t) {c : Char}
    (more : Text) : s' ≠ s ++ c :: more := by
  rintro rfl
  have both : s ++ spelled fragments = s ++ c :: more ++ spelled others := tiles.spells.trans other.spells.symm
  rw [List.append_assoc] at both
  have behind := List.append_cancel_left both
  cases fragments with
  | nil => cases behind
  | cons next fragments =>
    cases next with
    | text u => exact absurd rfl (tiles.apart [] s u fragments)
    | value expression =>
      have opening : '$' :: '\x7b' :: (expression ++ ['\x7d'] ++ spelled fragments) = c :: more ++ spelled others :=
        behind
      rcases opening_cases opening other.head_behind_text with none | ⟨rest, split⟩
      · cases none
      · rw [split] at opening
        have inside : expression ++ ['\x7d'] ++ spelled fragments = rest ++ spelled others :=
          (List.cons.inj (List.cons.inj opening).2).2
        have closed : '\x7d' ∈ rest ++ spelled others := by
          rw [← inside]
          simp
        exact other.plain [] _ others rfl s rest (by rw [split]) closed

/-- No text stands where an expression does. -/
theorem not_text_of_value (tiles : Tiles (.value expression :: fragments) t) : ¬ Tiles (.text s :: others) t := by
  intro other
  have closed : '\x7d' ∈ expression ++ ['\x7d'] ++ spelled fragments := by simp
  rcases other.opened [] _ tiles.spells.symm closed with
    ⟨first, _, rest, split, eq⟩ | ⟨first, _, rest, inner, _, eq, some_inner, _⟩
  · cases first with
    | nil => exact absurd (List.cons.inj split).1 nofun
    | cons own first =>
      obtain ⟨rfl, _⟩ := List.cons.inj split
      exact other.sound (.text s) List.mem_cons_self (List.append_eq_nil_iff.mp eq.symm).1
  · exact some_inner (List.append_eq_nil_iff.mp eq.symm).2

theorem first_unique {own : Fragment} (tiles : Tiles (fragment :: fragments) t) (other : Tiles (own :: others) t) :
    fragment = own := by
  have both : fragment.written ++ spelled fragments = own.written ++ spelled others :=
    tiles.spells.trans other.spells.symm
  cases fragment with
  | text s =>
    cases own with
    | text s' =>
      exact congrArg Fragment.text
        (eq_of_neither_longer both (fun _ => tiles.text_not_longer other) (fun _ => other.text_not_longer tiles))
    | value expression => exact absurd tiles other.not_text_of_value
  | value expression =>
    cases own with
    | text s => exact absurd other tiles.not_text_of_value
    | value expression' =>
      -- both expressions end with the first closing brace behind the same opening
      have inside : expression ++ '\x7d' :: spelled fragments = expression' ++ '\x7d' :: spelled others := by
        simpa [written] using both
      have cut := Scan.cutAt?_append (spelled fragments) (tiles.sound _ List.mem_cons_self)
      rw [inside, Scan.cutAt?_append (spelled others) (other.sound _ List.mem_cons_self)] at cut
      exact congrArg Fragment.value (Prod.mk.inj (Option.some.inj cut)).1.symm

/-- There is one way to divide a text into fragments. -/
theorem unique (tiles : Tiles fragments t) (other : Tiles others t) : fragments = others := by
  induction fragments generalizing others t with
  | nil =>
    cases others with
    | nil => rfl
    | cons own others => exact absurd tiles.spells.symm other.some_of_cons
  | cons fragment fragments ih =>
    cases others with
    | nil => exact absurd other.spells.symm tiles.some_of_cons
    | cons own others =>
      obtain rfl := tiles.first_unique other
      have same : spelled fragments = spelled others :=
        List.append_cancel_left (tiles.spells.trans other.spells.symm)
      rw [ih tiles.tail (same ▸ other.tail)]

end Tiles

theorem readable_of_gives {fragments : List Fragment} {statements : List Statement} {expression : Text}
    (gives : List.Forall₂ Gives fragments statements) (member : value expression ∈ fragments) :
    ∃ e, Expression.read expression = .ok e := by
  induction gives with
  | nil => cases member
  | cons first _ ih =>
    cases member with
    | head =>
      cases first with
      | value read => exact ⟨_, read⟩
    | tail _ member => exact ih member

namespace FirstUnread

variable {fragments first first' : List Fragment} {fragment : Fragment} {expression expression' : Text}
  {cause cause' : CodeError}

theorem not_longer (unread : FirstUnread fragments first expression cause)
    (other : FirstUnread fragments first' expression' cause') (more : List Fragment) :
    first' ≠ first ++ fragment :: more := by
  rintro rfl
  obtain ⟨rest, split⟩ := unread.divided
  obtain ⟨rest', split'⟩ := other.divided
  have both : first ++ value expression :: rest = first ++ (fragment :: (more ++ value expression' :: rest')) := by
    rw [← split, split', List.append_assoc, List.cons_append]
  obtain ⟨rfl, _⟩ := List.cons.inj (List.append_cancel_left both)
  obtain ⟨e, read⟩ := other.readable expression (List.mem_append_right _ List.mem_cons_self)
  cases read.symm.trans unread.unread

theorem unique (unread : FirstUnread fragments first expression cause)
    (other : FirstUnread fragments first' expression' cause') : first = first' ∧ cause = cause' := by
  obtain ⟨rest, split⟩ := unread.divided
  obtain ⟨rest', split'⟩ := other.divided
  have both := split.symm.trans split'
  obtain rfl := eq_of_neither_longer both (fun _ => unread.not_longer other) (fun _ => other.not_longer unread)
  obtain rfl := Fragment.value.inj (List.cons.inj (List.append_cancel_left both)).1
  exact ⟨rfl, Except.error.inj (unread.unread.symm.trans other.unread)⟩

theorem not_gives (unread : FirstUnread fragments first expression cause) {statements : List Statement} :
    ¬ List.Forall₂ Gives fragments statements := by
  intro gives
  obtain ⟨rest, rfl⟩ := unread.divided
  obtain ⟨e, read⟩ := readable_of_gives gives (List.mem_append_right _ List.mem_cons_self)
  cases read.symm.trans unread.unread

end FirstUnread

def ofText (t : Text) : List Fragment := if t = [] then [] else [text t]

theorem spelled_ofText (t : Text) : spelled (ofText t) = t := by
  unfold ofText
  split
  · next none => rw [none]; rfl
  · exact List.append_nil t

theorem value_not_mem_ofText {expression t : Text} : value expression ∉ ofText t := by
  unfold ofText
  split <;> simp

/-- A text among fragments gives what it does alone. -/
theorem gives_ofText_append {t : Text} {fragments : List Fragment} {statements : List Statement} :
    List.Forall₂ Gives (ofText t ++ fragments) statements ↔
      ∃ more, List.Forall₂ Gives fragments more ∧ statements = textStatements t ++ more := by
  unfold ofText textStatements
  split
  · simp
  · constructor
    · intro gives
      obtain ⟨statement, more, first, others, rfl⟩ := List.forall₂_cons_left_iff.mp gives
      cases first
      exact ⟨more, others, rfl⟩
    · rintro ⟨more, others, rfl⟩
      exact .cons .text others

end Fragment

open Fragment

theorem length_lt_of_interpolation? {t before expression rest : Text}
    (found : interpolation? t = some (before, expression, rest)) : rest.length < t.length := by
  rw [eq_append_of_interpolation? found]
  simp only [List.length_append, List.length_cons]
  omega

/-- The fragments of a text, each expression up to the first closing brace. -/
def Text.fragments (t : Text) : List Fragment :=
  match found : interpolation? t with
  | none => ofText t
  | some (before, expression, rest) =>
    have := length_lt_of_interpolation? found
    ofText before ++ .value expression :: fragments rest
termination_by t.length

theorem Text.fragments_of_some {t before expression rest : Text}
    (found : interpolation? t = some (before, expression, rest)) :
    t.fragments = ofText before ++ .value expression :: rest.fragments := by
  rw [fragments]
  split
  · next none => cases found.symm.trans none
  · next again =>
    cases found.symm.trans again
    rfl

theorem tiles_fragments (t : Text) : Tiles t.fragments t := by
  fun_induction Text.fragments t with
  | case1 t none =>
    unfold ofText
    split
    · next empty => exact empty ▸ .nil
    · next some_text =>
      refine .last some_text ?_
      rintro before after rfl
      exact unclosed_of_interpolation?_eq_none none
  | case2 t before expression rest found shorter ih =>
    obtain ⟨unopened, unclosed⟩ := interpolation?_inversion found
    have tiles := ih.value unclosed
    have whole : t = before ++ ((Fragment.value expression).written ++ rest) := by
      rw [eq_append_of_interpolation? found]
      simp [written]
    rw [whole]
    unfold ofText
    split
    · next empty => rwa [empty]
    · next some_text => exact tiles.text some_text unopened

-- what is opened in an expression is part of it, and a dollar sign in front of an opening is text
example : Text.fragments "$\x7ba$\x7bb\x7d$$\x7b\x7d\x7d $\x7b" =
    [value "a$\x7bb", text "$", value "", text "\x7d $\x7b"] := by
  cbv

/-- A text is read just where each of its fragments can be, as what these give. -/
theorem interpolate_ok_iff {offset : Nat} {t : Text} {statements : List Statement} :
    interpolate offset t = .ok statements ↔ List.Forall₂ Gives t.fragments statements := by
  fun_induction Text.fragments t generalizing offset statements with
  | case1 t none =>
    rw [interpolate_of_none none, ← List.append_nil (ofText t), gives_ofText_append]
    simp [eq_comm]
  | case2 t before expression rest found shorter ih =>
    rw [interpolate_of_some found, gives_ofText_append]
    constructor
    · intro read
      cases value : Expression.read expression with
      | error cause =>
        rw [value] at read
        cases read
      | ok e =>
        rw [value] at read
        obtain ⟨more, later, eq⟩ := ok_of_bind read
        exact ⟨.value e :: more, .cons (.value value) (ih.mp later), (Except.ok.inj eq).symm⟩
    · rintro ⟨_, gives, rfl⟩
      obtain ⟨_, more, first, others, rfl⟩ := List.forall₂_cons_left_iff.mp gives
      cases first with
      | value read =>
        simp only [read, ih.mpr others]
        rfl

/-- The expression for which a text is refused is the first of its fragments that cannot be read. -/
theorem Misread.firstUnread {t front expression : Text} {cause : CodeError}
    (misread : Misread t front expression cause) :
    ∃ first, FirstUnread t.fragments first expression cause ∧ spelled first = front := by
  induction misread with
  | @first t front expression rest cause found unread =>
    exact ⟨ofText front, ⟨⟨rest.fragments, Text.fragments_of_some found⟩,
      fun earlier member => absurd member value_not_mem_ofText, unread⟩, spelled_ofText front⟩
  | @later t before read rest front expression value cause found readable misread ih =>
    obtain ⟨first, ⟨⟨others, split⟩, earlier, unread⟩, rfl⟩ := ih
    refine ⟨ofText before ++ .value read :: first, ⟨⟨others, ?_⟩, ?_, unread⟩, ?_⟩
    · rw [Text.fragments_of_some found, split, List.append_assoc, List.cons_append]
    · intro own member
      rcases List.mem_append.mp member with member | member
      · exact absurd member value_not_mem_ofText
      · cases member with
        | head => exact ⟨value, readable⟩
        | tail _ member => exact earlier own member
    · rw [spelled_append, spelled_cons, spelled_ofText]
      simp [written]

/-- A text is refused just where one of its expressions cannot be read, for what is wrong with the first of those and
at the byte where it is opened. -/
theorem interpolate_error_iff {offset : Nat} {t : Text} {fault : CodeError} :
    interpolate offset t = .error fault ↔ ∃ first expression cause, FirstUnread t.fragments first expression cause ∧
      fault = { message := cause.message, offset := some (offset + Text.byteSize (spelled first)) } := by
  have refused {fault : CodeError} (unread : interpolate offset t = .error fault) :
      ∃ first expression cause, FirstUnread t.fragments first expression cause ∧
        fault = { message := cause.message, offset := some (offset + Text.byteSize (spelled first)) } := by
    obtain ⟨front, expression, cause, misread⟩ := exists_misread unread
    obtain ⟨first, found, rfl⟩ := misread.firstUnread
    exact ⟨first, expression, cause, found,
      Except.error.inj (unread.symm.trans (interpolate_of_misread misread offset))⟩
  refine ⟨refused, ?_⟩
  rintro ⟨first, expression, cause, own, rfl⟩
  cases read : interpolate offset t with
  | ok statements => exact absurd (interpolate_ok_iff.mp read) own.not_gives
  | error fault =>
    obtain ⟨first', expression', cause', other, rfl⟩ := refused read
    obtain ⟨rfl, rfl⟩ := own.unique other
    rfl

/-- There is one way to divide a text into plain text and expressions such that each expression that is opened and
closed is one of the fragments or inside of one. The program for the text does, in order, what these are for. A text
is refused for the first expression that cannot be read, at the byte where this is opened. -/
theorem interpolation_tiles (t : Text) :
    ∃ fragments, Tiles fragments t ∧ (∀ others, Tiles others t → others = fragments) ∧
      ∀ offset, (∀ statements, interpolate offset t = .ok statements ↔ List.Forall₂ Gives fragments statements) ∧
        ∀ fault, interpolate offset t = .error fault ↔
          ∃ first expression cause, FirstUnread fragments first expression cause ∧
            fault = { message := cause.message, offset := some (offset + Text.byteSize (spelled first)) } :=
  ⟨t.fragments, tiles_fragments t, fun _ tiles => tiles.unique (tiles_fragments t),
    fun _ => ⟨fun _ => interpolate_ok_iff, fun _ => interpolate_error_iff⟩⟩

end MarkupTemplates
