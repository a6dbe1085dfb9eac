namespace MarkupTemplates

/-- Text is the list of its characters, so that reading it is recursion on a list. -/
abbrev Text := List Char

instance : Coe String Text := ⟨String.toList⟩

namespace Text

/-- Positions in a source are counted in bytes of its UTF-8 form. -/
def byteSize : Text → Nat
  | [] => 0
  | c :: t => c.utf8Size + byteSize t

/-- What is left after the characters that begin within the first `n` bytes. -/
def dropBytes : Nat → Text → Text
  | 0, t => t
  | _ + 1, [] => []
  | n + 1, c :: t => dropBytes (n + 1 - c.utf8Size) t

/-- The characters that begin within the first `n` bytes. -/
def takeBytes : Nat → Text → Text
  | 0, _ => []
  | _ + 1, [] => []
  | n + 1, c :: t => c :: takeBytes (n + 1 - c.utf8Size) t

/-- The text from byte `start` up to byte `stop`. -/
def slice (t : Text) (start stop : Nat) : Text :=
  takeBytes (stop - start) (dropBytes start t)

/-- The last boundary between characters at or before byte `n`; no boundary lies past the end. -/
def boundaryBefore : Text → Nat → Nat
  | [], _ => 0
  | c :: t, n => if c.utf8Size ≤ n then c.utf8Size + boundaryBefore t (n - c.utf8Size) else 0

/-- What follows `head`, if the text starts with it. -/
def after? : Text → Text → Option Text
  | [], t => some t
  | _ :: _, [] => none
  | h :: head, c :: t => if h = c then after? head t else none

/-- What comes before `tail`, if the text ends with it. -/
def before? (tail t : Text) : Option Text :=
  (after? tail.reverse t.reverse).map List.reverse

/-- The parts before and after the first occurrence of a non-empty `mark`. -/
def cut? (mark : Text) : Text → Option (Text × Text)
  | [] => none
  | c :: t =>
    match after? mark (c :: t) with
    | some rest => some ([], rest)
    | none => (cut? mark t).map fun (before, rest) => (c :: before, rest)

/-- The parts before and after the first character `mark`. -/
def cutAt? (mark : Char) (t : Text) : Option (Text × Text) :=
  match t.dropWhile (· != mark) with
  | [] => none
  | _ :: rest => some (t.takeWhile (· != mark), rest)

/-- The parts between the characters `mark`; one part more than there are marks. -/
def parts (mark : Char) : Text → List Text
  | [] => [[]]
  | c :: t =>
    if c = mark then [] :: parts mark t
    else match parts mark t with
      | [] => [[c]]
      | part :: rest => (c :: part) :: rest

/-- Case is ignored for the letters of ASCII alone. -/
def lower (t : Text) : Text := t.map Char.toLower

/-- Every occurrence of `c` written as `text`. -/
def replace (t : Text) (c : Char) (text : Text) : Text :=
  t.flatMap fun d => if d = c then text else [d]

/-- Texts in a row with `mark` between them. -/
def joined (mark : Text) (texts : List Text) : Text :=
  (texts.intersperse mark).flatten

theorem byteSize_nil : byteSize [] = 0 := rfl

theorem byteSize_cons (c : Char) (t : Text) : byteSize (c :: t) = c.utf8Size + byteSize t := rfl

theorem byteSize_append (s t : Text) : byteSize (s ++ t) = byteSize s + byteSize t := by
  induction s with
  | nil => simp [byteSize]
  | cons c s ih => simp [byteSize, ih, Nat.add_assoc]

theorem eq_append_of_after? {head t rest : Text} (h : after? head t = some rest) :
    t = head ++ rest := by
  fun_induction after? head t with
  | case1 => simpa using h
  | case2 => simp at h
  | case3 _ _ _ ih => simp [ih h]
  | case4 => simp at h

theorem after?_append (head rest : Text) : after? head (head ++ rest) = some rest := by
  induction head with
  | nil => rfl
  | cons h head ih => simp [after?, ih]

theorem eq_append_of_cut? {mark t before rest : Text} (h : cut? mark t = some (before, rest)) :
    t = before ++ mark ++ rest := by
  fun_induction cut? mark t generalizing before with
  | case1 => simp at h
  | case2 c t found after =>
    obtain ⟨rfl, rfl⟩ := Prod.mk.inj (Option.some.inj h)
    simpa using eq_append_of_after? after
  | case3 c t _ ih =>
    obtain ⟨⟨before', rest'⟩, found, eq⟩ := Option.map_eq_some_iff.1 h
    obtain ⟨rfl, rfl⟩ := Prod.mk.inj eq
    simp [ih found]

theorem eq_append_of_cutAt? {mark : Char} {t before rest : Text}
    (h : cutAt? mark t = some (before, rest)) : t = before ++ mark :: rest := by
  have split := List.takeWhile_append_dropWhile (p := (· != mark)) (l := t)
  unfold cutAt? at h
  split at h
  · simp at h
  · next c _ stop =>
    obtain ⟨rfl, rfl⟩ := Prod.mk.inj (Option.some.inj h)
    have here : c = mark := by
      have := List.head?_dropWhile_not (· != mark) t
      rw [stop] at this
      simpa using this
    rw [stop, here] at split
    exact split.symm

end Text

end MarkupTemplates
