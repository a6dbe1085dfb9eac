import MarkupTemplates.Proofs.Program.Blocks
import MarkupTemplates.Proofs.Text.Chunks

namespace MarkupTemplates

/-- The first interpolated expression of a text that cannot be read: what stands in front of it, the expression
and what is wrong with it. -/
inductive Misread : Text → Text → Text → CodeError → Prop
  | first {t front expression rest : Text} {e : CodeError} :
      interpolation? t = some (front, expression, rest) → Expression.read expression = .error e →
      Misread t front expression e
  | later {t before read rest front expression : Text} {value : Expression} {e : CodeError} :
      interpolation? t = some (before, read, rest) → Expression.read read = .ok value →
      Misread rest front expression e →
      Misread t (before ++ ['$', '\x7b'] ++ read ++ '\x7d' :: front) expression e

theorem Misread.split {t front expression : Text} {e : CodeError} (misread : Misread t front expression e) :
    Expression.read expression = .error e ∧
      ∃ rest, t = front ++ '$' :: '\x7b' :: (expression ++ '\x7d' :: rest) := by
  induction misread with
  | @first t front expression rest e found unread =>
    refine ⟨unread, rest, (eq_append_of_interpolation? found).trans ?_⟩
    simp only [List.append_assoc, List.cons_append, List.nil_append]
  | later found _ _ ih =>
    obtain ⟨unread, rest, rfl⟩ := ih
    refine ⟨unread, rest, (eq_append_of_interpolation? found).trans ?_⟩
    simp only [List.append_assoc, List.cons_append, List.nil_append]

theorem interpolate_of_misread {t front expression : Text} {e : CodeError} (misread : Misread t front expression e)
    (offset : Nat) :
    interpolate offset t = .error { message := e.message, offset := some (offset + Text.byteSize front) } := by
  induction misread generalizing offset with
  | first found unread => rw [interpolate_of_some found, unread]
  | @later t before read rest front expression value e found readable _ ih =>
    have size : offset + Text.byteSize before + 3 + Text.byteSize read + Text.byteSize front =
        offset + Text.byteSize (before ++ ['$', '\x7b'] ++ read ++ '\x7d' :: front) := by
      have marks : Text.byteSize ['$', '\x7b'] = 2 := rfl
      have mark : '\x7d'.utf8Size = 1 := rfl
      simp only [Text.byteSize_append, Text.byteSize_cons, marks, mark]
      omega
    simp only [← size, interpolate_of_some found, readable, ih]
    rfl

/-- A text is refused for the first expression in it that cannot be read. -/
theorem exists_misread {offset : Nat} {t : Text} {fault : CodeError} (h : interpolate offset t = .error fault) :
    ∃ front expression e, Misread t front expression e := by
  fun_induction interpolate offset t with
  | case1 => cases h
  | case2 offset t before expression rest found _ start e read => exact ⟨before, expression, e, .first found read⟩
  | case3 offset t before expression rest found _ start value read ih =>
    rcases error_of_bind h with unread | ⟨_, _, h⟩
    · obtain ⟨front, own, e, misread⟩ := ih unread
      exact ⟨_, own, e, .later found read misread⟩
    · cases h

namespace Chunk

/-- The bytes of the source that a chunk tells of. -/
def length : Chunk → Nat
  | text t => t.byteSize
  | code length _ => length

def lengths : List Chunk → Nat
  | [] => 0
  | chunk :: list => chunk.length + lengths list

/-- A character of a text among chunks, with the document in front of it and the bytes that this tells of. -/
inductive Shows : List Chunk → Text → Nat → Char → Prop
  | here {front rest : Text} {c : Char} {list : List Chunk} :
      Shows (.text (front ++ c :: rest) :: list) front front.byteSize c
  | later {chunk : Chunk} {list : List Chunk} {before : Text} {n : Nat} {c : Char} :
      Shows list before n c → Shows (chunk :: list) (chunk.written ++ before) (chunk.length + n) c

theorem Shows.of_split (before : List Chunk) (front : Text) (c : Char) (rest : Text) (after : List Chunk) :
    Shows (before ++ .text (front ++ c :: rest) :: after) (document before ++ front)
      (lengths before + front.byteSize) c := by
  induction before with
  | nil =>
    have size : lengths [] + front.byteSize = front.byteSize := Nat.zero_add _
    rw [show document [] ++ front = front from rfl, size]
    exact .here
  | cons chunk before ih =>
    rw [document_cons, lengths, List.append_assoc, Nat.add_assoc]
    exact .later ih

theorem Shows.cons_cases {chunk : Chunk} {list : List Chunk} {before : Text} {n : Nat} {c : Char}
    (shows : Shows (chunk :: list) before n c) :
    (∃ rest, chunk = .text (before ++ c :: rest) ∧ n = before.byteSize) ∨
      ∃ before' n', Shows list before' n' c ∧ before = chunk.written ++ before' ∧ n = chunk.length + n' := by
  generalize all : chunk :: list = chunks at shows
  cases shows with
  | here =>
    obtain ⟨rfl, rfl⟩ := List.cons.inj all
    exact .inl ⟨_, rfl, rfl⟩
  | later shows =>
    obtain ⟨rfl, rfl⟩ := List.cons.inj all
    exact .inr ⟨_, _, shows, rfl, rfl⟩

/-- With another character in front of a text, what is shown is that character or was shown before. -/
theorem Shows.of_text {c d : Char} {t before : Text} {list : List Chunk} {n : Nat}
    (shows : Shows (.text (c :: t) :: list) before n d) :
    (before = [] ∧ n = 0 ∧ d = c) ∨
      ∃ before' n', Shows (.text t :: list) before' n' d ∧ before = c :: before' ∧ n = c.utf8Size + n' := by
  rcases shows.cons_cases with ⟨rest, eq, rfl⟩ | ⟨before', n', shown, rfl, rfl⟩
  · cases before with
    | nil => exact .inl ⟨rfl, rfl, (List.cons.inj (Chunk.text.inj eq)).1.symm⟩
    | cons _ before =>
      obtain ⟨rfl, rfl⟩ := List.cons.inj (Chunk.text.inj eq)
      exact .inr ⟨before, _, .here, rfl, rfl⟩
  · exact .inr ⟨_, _, .later shown, rfl, Nat.add_assoc ..⟩

theorem Shows.of_push {c d : Char} {list : List Chunk} {before : Text} {n : Nat}
    (shows : Shows (push c list) before n d) :
    (before = [] ∧ n = 0 ∧ d = c) ∨
      ∃ before' n', Shows list before' n' d ∧ before = c :: before' ∧ n = c.utf8Size + n' := by
  have empty {rest : List Chunk} (shows : Shows (.text [c] :: rest) before n d) : (before = [] ∧ n = 0 ∧ d = c) ∨
      ∃ before' n', Shows rest before' n' d ∧ before = c :: before' ∧ n = c.utf8Size + n' := by
    rcases shows.of_text with here | ⟨before', n', shown, rfl, rfl⟩
    · exact .inl here
    · rcases shown.cons_cases with ⟨_, eq, _⟩ | ⟨before', n', inRest, rfl, rfl⟩
      · exact absurd (Chunk.text.inj eq) (by simp)
      · exact .inr ⟨before', n', inRest, rfl, congrArg _ (Nat.zero_add n')⟩
  cases list with
  | nil => exact empty shows
  | cons first rest =>
    cases first with
    | code length inner => exact empty shows
    | text t => exact shows.of_text

/-- Texts that are put together show what they did apart. -/
theorem Shows.of_merged {list : List Chunk} {before : Text} {n : Nat} {c : Char}
    (shows : Shows (merged list) before n c) : Shows list before n c := by
  induction list generalizing before n with
  | nil => exact shows
  | cons first rest ih =>
    cases first with
    | code length inner =>
      rcases shows.cons_cases with ⟨_, eq, _⟩ | ⟨before', n', shown, rfl, rfl⟩
      · exact absurd eq nofun
      · exact .later (ih shown)
    | text t =>
      rw [merged] at shows
      induction t generalizing before n with
      | nil =>
        have later : Shows (.text [] :: rest) ([] ++ before) (0 + n) c := .later (ih shows)
        rwa [List.nil_append, Nat.zero_add] at later
      | cons d t ih' =>
        rcases shows.of_push with ⟨rfl, rfl, rfl⟩ | ⟨before', n', shown, rfl, rfl⟩
        · have here : Shows (.text ([] ++ c :: t) :: rest) [] (Text.byteSize []) c := .here
          exact here
        · rcases (ih' shown).cons_cases with ⟨last, eq, rfl⟩ | ⟨before', n', inRest, rfl, rfl⟩
          · obtain rfl := Chunk.text.inj eq
            have here : Shows (.text (d :: before' ++ c :: last) :: rest) (d :: before')
                (Text.byteSize (d :: before')) c := .here
            exact here
          · rw [← Nat.add_assoc]
            exact .later inRest

end Chunk

namespace ProgramDraft

theorem takeCode_offset {d d' : ProgramDraft} {offset : Nat} {code : Text} (h : d.takeCode offset code = .ok d') :
    d'.offset = d.offset := by
  cases takeCode_taken h with
  | enters => rfl
  | adds => rfl
  | closes => rfl

/-- A draft is as far in the source as its chunks tell. -/
theorem through_offset {d d' : ProgramDraft} {chunks : List Chunk} (h : d.through chunks = .ok d') :
    d'.offset = d.offset + Chunk.lengths chunks := by
  induction chunks generalizing d with
  | nil => exact Except.ok.inj h ▸ rfl
  | cons chunk rest ih =>
    obtain ⟨next, taken, others⟩ := ok_of_bind h
    rw [ih others, Chunk.lengths, ← Nat.add_assoc]
    refine congrArg (· + _) ?_
    cases chunk with
    | text t =>
      obtain ⟨_, _, eq⟩ := ok_of_bind taken
      exact Except.ok.inj eq ▸ rfl
    | code length inner => exact takeCode_offset taken

end ProgramDraft

theorem ProgramDraft.exists_misread {d : ProgramDraft} {t : Text} {fault : CodeError}
    (refused : d.take (.text t) = .error fault) : ∃ front expression e, Misread t front expression e := by
  rcases error_of_bind refused with unread | ⟨_, _, eq⟩
  · exact MarkupTemplates.exists_misread unread
  · cases eq

/-- Where the chunks in front of a text have been read, and not all expressions in the text can be, the program is
refused where the first of those begins that cannot. -/
theorem Program.ofChunks_of_misread {before : List Chunk} {t front expression : Text} {d : ProgramDraft}
    {e : CodeError} (read : ({} : ProgramDraft).through before = .ok d) (misread : Misread t front expression e)
    (after : List Chunk) : Program.ofChunks (before ++ .text t :: after) =
      .error { message := e.message, offset := some (Chunk.lengths before + front.byteSize) } := by
  have refused := interpolate_of_misread misread d.offset
  rw [ProgramDraft.through_offset read, Nat.zero_add] at refused
  rw [ofChunks, ProgramDraft.finish_eq_through, ProgramDraft.through_append, read]
  show ((interpolate d.offset t >>= _) >>= _) >>= _ = _
  rw [ProgramDraft.through_offset read, Nat.zero_add, refused]
  rfl

end MarkupTemplates
