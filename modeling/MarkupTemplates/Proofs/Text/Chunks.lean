import Mathlib.Data.List.Basic
import Mathlib.Data.List.TakeWhile
import MarkupTemplates.Marker
import MarkupTemplates.Proofs.Markup.Legible

namespace MarkupTemplates

namespace Text

theorem digitValue_of_isDigit {c : Char} (digit : c.isDigit = true) :
    digitValue c = c.toNat - '0'.toNat ∧ digitValue c < 10 := by
  have upper : c.toNat ≤ 57 := by
    simp only [Char.isDigit, Bool.and_eq_true, decide_eq_true_eq] at digit
    exact UInt32.le_iff_toNat_le.mp digit.2
  have zero : '0'.toNat = 48 := rfl
  rw [digitValue, if_pos digit]
  exact ⟨rfl, by omega⟩

theorem isDigit_of_mem_ofNat {n : Nat} {c : Char} (member : c ∈ ofNat n) : c.isDigit = true :=
  Nat.isDigit_of_mem_toDigits (by decide) (by decide) member

/-- One or more decimal digits read as the number they denote. -/
theorem natural?_of_digits {digits : Text} (some_digit : digits ≠ [])
    (all_digits : ∀ c ∈ digits, c.isDigit = true) :
    natural? 10 digits = some (Nat.ofDigitChars 10 digits 0) := by
  have small : digits.all (digitValue · < 10) = true :=
    List.all_eq_true.mpr fun c member => decide_eq_true (digitValue_of_isDigit (all_digits c member)).2
  have value : ofDigits 10 digits = Nat.ofDigitChars 10 digits 0 := by
    rw [ofDigits, Nat.ofDigitChars_eq_foldl]
    exact List.foldl_ext _ _ _ fun n c member => by
      rw [(digitValue_of_isDigit (all_digits c member)).1]
  rw [natural?, if_pos ⟨some_digit, small⟩, value]

/-- A number reads as it is written. -/
theorem natural?_ofNat (n : Nat) : natural? 10 (ofNat n) = some n := by
  have read : natural? 10 (ofNat n) = some (Nat.ofDigitChars 10 (ofNat n) 0) :=
    natural?_of_digits Nat.toDigits_ne_nil fun c => isDigit_of_mem_ofNat
  rw [read, ofNat, Nat.ofDigitChars_ten_toDigits]

end Text

/-- A run of a class does not go beyond a character outside of the class. -/
theorem run_past {p : Char → Bool} {c : Char} (outside : p c = false) (s rest : Text) :
    (s ++ c :: rest).takeWhile p = s.takeWhile p ∧
      (s ++ c :: rest).dropWhile p = s.dropWhile p ++ c :: rest := by
  induction s with
  | nil => simp [outside]
  | cons d s ih =>
    cases inside : p d with
    | true => simp only [List.cons_append, List.takeWhile_cons, List.dropWhile_cons, inside, if_true, ih, and_self]
    | false => simp [inside]

namespace Chunk

/-- The text that a document has for the chunk. -/
def written : Chunk → Text
  | text t => t
  | code length inner => marker length inner

def isCode : Chunk → Bool
  | text _ => false
  | code .. => true

/-- Code that can be told from text: its length is a number of 64 bits, and it holds none of the marks. -/
def Clean : Chunk → Prop
  | text _ => True
  | code length inner => length < Marker.lengthBound ∧ ∀ c ∈ inner, Marker.isCodeChar c = true

def document (list : List Chunk) : Text := list.flatMap written

/-- The chunks with texts in a row put together, and without empty texts. -/
def merged : List Chunk → List Chunk
  | [] => []
  | .text t :: rest => t.foldr push (merged rest)
  | .code length inner :: rest => .code length inner :: merged rest

/-- There is code between any two texts, and no text is empty. -/
inductive Settled : List Chunk → Prop
  | nil : Settled []
  | code {length : Nat} {code : Text} {rest : List Chunk} : Settled rest → Settled (.code length code :: rest)
  | last {t : Text} : t ≠ [] → Settled [.text t]
  | text {t : Text} {length : Nat} {code : Text} {rest : List Chunk} :
      t ≠ [] → Settled (.code length code :: rest) → Settled (.text t :: .code length code :: rest)

theorem document_cons (chunk : Chunk) (list : List Chunk) :
    document (chunk :: list) = chunk.written ++ document list := rfl

theorem document_push (c : Char) (list : List Chunk) : document (push c list) = c :: document list := by
  cases list with
  | nil => rfl
  | cons first rest => cases first <;> rfl

/-- Put together, chunks spell the same document. -/
theorem document_merged (list : List Chunk) : document (merged list) = document list := by
  induction list with
  | nil => rfl
  | cons first rest ih =>
    cases first with
    | code length code => rw [merged, document_cons, document_cons, ih]
    | text t =>
      rw [merged, document_cons, ← ih]
      show _ = t ++ document (merged rest)
      induction t with
      | nil => rfl
      | cons c t ih' => rw [List.foldr_cons, document_push, ih', List.cons_append]

theorem code_mem_push {c : Char} {length : Nat} {code : Text} {list : List Chunk} :
    .code length code ∈ push c list ↔ .code length code ∈ list := by
  cases list with
  | nil => simp [push]
  | cons first rest => cases first <;> simp [push]

theorem code_mem_merged {length : Nat} {code : Text} {list : List Chunk} :
    .code length code ∈ merged list ↔ .code length code ∈ list := by
  induction list with
  | nil => rfl
  | cons first rest ih =>
    cases first with
    | code length' code' => rw [merged, List.mem_cons, List.mem_cons, ih]
    | text t =>
      rw [merged, List.mem_cons, ← ih]
      induction t with
      | nil => simp
      | cons c t ih' =>
        rw [List.foldr_cons, code_mem_push, ih']
        simp

theorem mem_text_push {c d : Char} {t : Text} {list : List Chunk} (member : .text t ∈ push c list)
    (inside : d ∈ t) : d = c ∨ ∃ s, .text s ∈ list ∧ d ∈ s := by
  cases list with
  | nil =>
    rw [Chunk.text.inj (List.mem_singleton.mp member)] at inside
    exact Or.inl (List.mem_singleton.mp inside)
  | cons first rest =>
    cases first with
    | text s =>
      rcases List.mem_cons.mp member with eq | member
      · rw [Chunk.text.inj eq] at inside
        rcases List.mem_cons.mp inside with here | inside
        · exact Or.inl here
        · exact Or.inr ⟨s, List.mem_cons_self, inside⟩
      · exact Or.inr ⟨t, List.mem_cons_of_mem _ member, inside⟩
    | code length inner =>
      rcases List.mem_cons.mp member with eq | member
      · rw [Chunk.text.inj eq] at inside
        exact Or.inl (List.mem_singleton.mp inside)
      · exact Or.inr ⟨t, member, inside⟩

/-- Texts that are put together hold nothing new. -/
theorem mem_text_merged {d : Char} {t : Text} {list : List Chunk} (member : .text t ∈ merged list)
    (inside : d ∈ t) : ∃ s, .text s ∈ list ∧ d ∈ s := by
  induction list generalizing t with
  | nil => exact absurd member List.not_mem_nil
  | cons first rest ih =>
    cases first with
    | code length inner =>
      rcases List.mem_cons.mp member with eq | member
      · exact absurd eq nofun
      · obtain ⟨s, found, inside⟩ := ih member inside
        exact ⟨s, List.mem_cons_of_mem _ found, inside⟩
    | text own =>
      rw [merged] at member
      suffices either : d ∈ own ∨ ∃ s, .text s ∈ merged rest ∧ d ∈ s by
        rcases either with here | ⟨s, found, inside⟩
        · exact ⟨own, List.mem_cons_self, here⟩
        · obtain ⟨s, found, inside⟩ := ih found inside
          exact ⟨s, List.mem_cons_of_mem _ found, inside⟩
      induction own generalizing t with
      | nil => exact Or.inr ⟨t, member, inside⟩
      | cons c own ih' =>
        rcases mem_text_push member inside with rfl | ⟨s, found, inside⟩
        · exact Or.inl List.mem_cons_self
        · exact (ih' inside found).imp_left (List.mem_cons_of_mem c)

theorem Settled.push {list : List Chunk} (settled : Settled list) (c : Char) : Settled (push c list) := by
  cases settled with
  | nil => exact .last (List.cons_ne_nil _ _)
  | code rest => exact .text (List.cons_ne_nil _ _) (.code rest)
  | last _ => exact .last (List.cons_ne_nil _ _)
  | text _ rest => exact .text (List.cons_ne_nil _ _) rest

theorem settled_merged (list : List Chunk) : Settled (merged list) := by
  induction list with
  | nil => exact .nil
  | cons first rest ih =>
    cases first with
    | code length code => exact .code ih
    | text t =>
      rw [merged]
      induction t with
      | nil => exact ih
      | cons c t ih' => exact ih'.push c

theorem Settled.ne_nil {t : Text} {list : List Chunk} (settled : Settled list) (member : .text t ∈ list) :
    t ≠ [] := by
  induction settled with
  | nil => exact absurd member List.not_mem_nil
  | code _ ih =>
    rcases List.mem_cons.mp member with eq | member
    · exact absurd eq nofun
    · exact ih member
  | last some_text =>
    rw [Chunk.text.inj (List.mem_singleton.mp member)]
    exact some_text
  | text some_text _ ih =>
    rcases List.mem_cons.mp member with eq | member
    · rw [Chunk.text.inj eq]
      exact some_text
    · exact ih member

theorem push_append (c : Char) (first : List Chunk) (length : Nat) (code : Text) (rest : List Chunk) :
    Chunk.push c (first ++ .code length code :: rest) = Chunk.push c first ++ .code length code :: rest := by
  cases first with
  | nil => rfl
  | cons chunk first => cases chunk <;> rfl

theorem foldr_push {t : Text} (some_text : t ≠ []) : t.foldr Chunk.push [] = [.text t] := by
  induction t with
  | nil => exact absurd rfl some_text
  | cons c t ih =>
    cases t with
    | nil => rfl
    | cons d t => rw [List.foldr_cons, ih (List.cons_ne_nil d t), Chunk.push]

end Chunk

namespace Marker

theorem isDigit_opening : opening.isDigit = false := by decide

theorem isCodeChar_opening : isCodeChar opening = false := by decide

theorem isCodeChar_closing : isCodeChar closing = false := by decide

/-- A marker in any of its spellings: the length is a number of 64 bits in one or more decimal digits, zeros
in front included. -/
inductive Spells (length : Nat) (code : Text) : Text → Prop
  | intro {digits : Text} : digits ≠ [] → (∀ c ∈ digits, c.isDigit = true) →
      Nat.ofDigitChars 10 digits 0 = length → length < lengthBound →
      (∀ c ∈ code, c ≠ opening ∧ c ≠ closing) →
      Spells length code (opening :: (digits ++ ':' :: (code ++ [closing])))

theorem isCodeChar_iff {c : Char} : isCodeChar c = true ↔ c ≠ opening ∧ c ≠ closing := by
  simp only [isCodeChar, Bool.and_eq_true, bne_iff_ne]

theorem Spells.clean {length : Nat} {code m : Text} (spells : Spells length code m) :
    (Chunk.code length code).Clean := by
  obtain ⟨_, _, _, bound, chars⟩ := spells
  exact ⟨bound, fun c member => isCodeChar_iff.mpr (chars c member)⟩

/-- Code that can be told from text has a marker. -/
theorem spells_marker {length : Nat} {code : Text} (clean : (Chunk.code length code).Clean) :
    Spells length code (marker length code) := by
  have spelled : marker length code = opening :: (Text.ofNat length ++ ':' :: (code ++ [closing])) := by
    simp only [marker, List.cons_append, List.append_assoc]
  rw [spelled]
  exact .intro Nat.toDigits_ne_nil (fun c => Text.isDigit_of_mem_ofNat)
    (by rw [Text.ofNat, Nat.ofDigitChars_ten_toDigits]) clean.1 fun c member => isCodeChar_iff.mp (clean.2 c member)

/-- However it is spelled, a marker is read as what it says. -/
theorem Spells.read? {length : Nat} {code m : Text} (spells : Spells length code m) (rest : Text) :
    ∃ inner, m = opening :: inner ∧ Marker.read? (inner ++ rest) = some (length, code, rest) := by
  have clean := spells.clean
  cases spells with
  | @intro inner some_digit all_digits value bound chars =>
    have digits := run_past (p := Char.isDigit) (c := ':') (by decide) inner (code ++ closing :: rest)
    have inside := run_past isCodeChar_closing code rest
    rw [List.takeWhile_eq_self_iff.mpr all_digits, List.dropWhile_eq_nil_iff.mpr all_digits] at digits
    rw [List.takeWhile_eq_self_iff.mpr clean.2, List.dropWhile_eq_nil_iff.mpr clean.2] at inside
    refine ⟨_, rfl, ?_⟩
    rw [List.append_assoc, List.cons_append, List.append_assoc, List.singleton_append, Marker.read?, digits.1,
      digits.2, Text.natural?_of_digits some_digit all_digits, value]
    simp only [Option.filter_some, bound, decide_true, if_true, List.nil_append, inside.1, inside.2]

/-- What is read as a marker is one. -/
theorem spells_of_read? {t code rest : Text} {length : Nat} (h : read? t = some (length, code, rest)) :
    ∃ inner, t = inner ++ rest ∧ Spells length code (opening :: inner) := by
  unfold read? at h
  split at h
  · next length' after bounded colon =>
    split at h
    · next c tail stop =>
      split at h
      · next own =>
        obtain ⟨rfl, rfl, rfl⟩ : length' = length ∧ after.takeWhile isCodeChar = code ∧ tail = rest := by
          simpa using h
        obtain ⟨read, bound⟩ := Option.filter_eq_some_iff.mp bounded
        have all_digits : ∀ c ∈ t.takeWhile Char.isDigit, c.isDigit = true :=
          fun c member => List.all_eq_true.mp List.all_takeWhile c member
        have some_digit : t.takeWhile Char.isDigit ≠ [] := by
          intro none
          simp [none, Text.natural?] at read
        rw [Text.natural?_of_digits some_digit all_digits] at read
        refine ⟨t.takeWhile Char.isDigit ++ ':' :: (after.takeWhile isCodeChar ++ [closing]), ?_,
          .intro some_digit all_digits (Option.some.inj read) (of_decide_eq_true bound) fun c member =>
            isCodeChar_iff.mp (List.all_eq_true.mp List.all_takeWhile c member)⟩
        calc t = t.takeWhile Char.isDigit ++ t.dropWhile Char.isDigit := List.takeWhile_append_dropWhile.symm
          _ = t.takeWhile Char.isDigit ++ ':' :: (after.takeWhile isCodeChar ++ after.dropWhile isCodeChar) := by
            rw [colon, List.takeWhile_append_dropWhile]
          _ = _ := by rw [stop, own]; simp
      · exact absurd h nofun
    · exact absurd h nofun
  · exact absurd h nofun

/-- No marker goes beyond the beginning of another one. -/
theorem read?_append (s rest : Text) : read? (s ++ opening :: rest) =
    (read? s).map fun (length, code, after) => (length, code, after ++ opening :: rest) := by
  have digits := run_past isDigit_opening s rest
  rw [read?, read?, digits.1, digits.2]
  cases (Text.natural? 10 (s.takeWhile Char.isDigit)).filter (· < lengthBound) with
  | none => rfl
  | some length =>
    cases s.dropWhile Char.isDigit with
    | nil => rfl
    | cons c t =>
      by_cases colon : c = ':'
      · subst colon
        have chars := run_past isCodeChar_opening t rest
        simp only [List.cons_append, chars.1, chars.2]
        cases t.dropWhile isCodeChar with
        | nil => rfl
        | cons d after =>
          simp only [List.cons_append]
          split <;> rfl
      · simp only [List.cons_append]
        split
        · next eq => exact absurd (List.cons.inj eq).1 colon
        · split
          · next eq => exact absurd (List.cons.inj eq).1 colon
          · rfl

end Marker

namespace Text

theorem chunks_opening (t : Text) : chunks (Marker.opening :: t) =
    match Marker.read? t with
    | some (length, code, rest) => .code length code :: chunks rest
    | none => Chunk.push Marker.opening (chunks t) := by
  rw [chunks, if_pos rfl]
  split
  · next read => simp only [read]
  · next read => simp only [read]

theorem chunks_other {c : Char} (other : c ≠ Marker.opening) (t : Text) :
    chunks (c :: t) = Chunk.push c (chunks t) := by
  rw [chunks, if_neg other]

theorem chunks_spelled {length : Nat} {code m : Text} (spells : Marker.Spells length code m) (rest : Text) :
    chunks (m ++ rest) = .code length code :: chunks rest := by
  obtain ⟨inner, rfl, read⟩ := spells.read? rest
  rw [List.cons_append, chunks_opening, read]

theorem chunks_marker {length : Nat} {code : Text} (clean : (Chunk.code length code).Clean) (rest : Text) :
    chunks (marker length code ++ rest) = .code length code :: chunks rest :=
  chunks_spelled (Marker.spells_marker clean) rest

/-- Whatever is read as code can be told from text. -/
theorem clean_of_mem_chunks {t inner : Text} {length : Nat} (member : .code length inner ∈ chunks t) :
    (Chunk.code length inner).Clean := by
  induction t using chunks.induct with
  | case1 => simp [chunks] at member
  | case2 t length' inner' rest read _ ih =>
    simp only [chunks_opening, read] at member
    rcases List.mem_cons.mp member with eq | member
    · rw [eq]
      obtain ⟨_, _, spells⟩ := Marker.spells_of_read? read
      exact spells.clean
    · exact ih member
  | case3 t read ih =>
    simp only [chunks_opening, read] at member
    exact ih (Chunk.code_mem_push.mp member)
  | case4 c t other ih =>
    rw [chunks_other other] at member
    exact ih (Chunk.code_mem_push.mp member)

theorem chunks_of_no_code {t : Text} (none : ∀ length inner, .code length inner ∉ chunks t) :
    chunks t = t.foldr Chunk.push [] := by
  induction t using chunks.induct with
  | case1 => rw [chunks, List.foldr_nil]
  | case2 t length inner rest read _ ih =>
    simp only [chunks_opening, read] at none
    exact absurd List.mem_cons_self (none length inner)
  | case3 t read ih =>
    simp only [chunks_opening, read] at none ⊢
    rw [ih fun length inner member => none length inner (Chunk.code_mem_push.mpr member), List.foldr_cons]
  | case4 c t other ih =>
    rw [chunks_other other] at none ⊢
    rw [ih fun length inner member => none length inner (Chunk.code_mem_push.mpr member), List.foldr_cons]

/-- A text without marks at which code begins holds no code. -/
theorem no_code_of_plain {t : Text} (plain : Marker.opening ∉ t) (length : Nat) (inner : Text) :
    .code length inner ∉ chunks t := by
  induction t with
  | nil => simp [chunks]
  | cons c t ih =>
    have apart := not_or.mp (mt List.mem_cons.mpr plain)
    rw [chunks_other (Ne.symm apart.1)]
    exact mt Chunk.code_mem_push.mp (ih apart.2)

/-- Text is read the same with code behind it. -/
theorem chunks_around {length : Nat} {inner m : Text} (spells : Marker.Spells length inner m) (t rest : Text) :
    chunks (t ++ (m ++ rest)) = chunks t ++ .code length inner :: chunks rest := by
  have behind := chunks_spelled spells rest
  obtain ⟨after, spelled⟩ : ∃ after, m ++ rest = Marker.opening :: after := by
    obtain ⟨inner, rfl, _⟩ := spells.read? rest
    exact ⟨inner ++ rest, rfl⟩
  rw [spelled] at behind ⊢
  induction t using chunks.induct with
  | case1 => rw [List.nil_append, behind, chunks, List.nil_append]
  | case2 t length' inner' rest' read _ ih =>
    rw [List.cons_append, chunks_opening, chunks_opening, Marker.read?_append, read]
    simp only [Option.map_some]
    rw [ih, List.cons_append]
  | case3 t read ih =>
    rw [List.cons_append, chunks_opening, chunks_opening, Marker.read?_append, read]
    simp only [Option.map_none]
    rw [ih, Chunk.push_append]
  | case4 c t other ih =>
    rw [List.cons_append, chunks_other other, chunks_other other, ih, Chunk.push_append]

end Text

namespace Chunk

/-- What becomes of a chunk when it is read again. -/
def reread : Chunk → List Chunk
  | text t => t.chunks
  | code length inner => [.code length inner]

/-- The chunks make up the document, each text as it is and each piece of code in one of its spellings. -/
inductive Tile : List Chunk → Text → Prop
  | nil : Tile [] []
  | text {t document : Text} {rest : List Chunk} : Tile rest document → Tile (.text t :: rest) (t ++ document)
  | code {length : Nat} {inner m document : Text} {rest : List Chunk} :
      Marker.Spells length inner m → Tile rest document → Tile (.code length inner :: rest) (m ++ document)

theorem tile_document {list : List Chunk} (clean : ∀ chunk ∈ list, chunk.Clean) : Tile list (document list) := by
  induction list with
  | nil => exact .nil
  | cons first rest ih =>
    have others := ih fun chunk member => clean chunk (List.mem_cons_of_mem _ member)
    cases first with
    | text t => exact .text others
    | code length inner => exact .code (Marker.spells_marker (clean _ List.mem_cons_self)) others

/-- Between pieces of code, texts are read by themselves. -/
theorem Tile.chunks {list : List Chunk} {t : Text} (tile : Tile list t) (settled : Settled list) :
    t.chunks = list.flatMap reread := by
  induction settled generalizing t with
  | nil =>
    cases tile
    rw [Text.chunks, List.flatMap_nil]
  | code _ ih =>
    cases tile with
    | code spells rest =>
      rw [Text.chunks_spelled spells, ih rest]
      rfl
  | last _ =>
    cases tile with
    | text rest =>
      cases rest
      rw [List.append_nil, List.flatMap_singleton, reread]
  | text _ _ ih =>
    cases tile with
    | text rest =>
      have behind := ih rest
      cases rest with
      | code spells rest =>
        rw [Text.chunks_spelled spells] at behind
        rw [Text.chunks_around spells, behind]
        rfl

/-- Between pieces of code that can be told from text, texts are read by themselves. -/
theorem chunks_document {list : List Chunk} (settled : Settled list) (clean : ∀ chunk ∈ list, chunk.Clean) :
    (document list).chunks = list.flatMap reread :=
  (tile_document clean).chunks settled

theorem countP_reread (list : List Chunk) : list.countP isCode ≤ (list.flatMap reread).countP isCode ∧
    ((list.flatMap reread).countP isCode = list.countP isCode →
      ∀ t, .text t ∈ list → (Text.chunks t).countP isCode = 0) := by
  induction list with
  | nil => exact ⟨Nat.le_refl _, fun _ _ member => absurd member List.not_mem_nil⟩
  | cons first rest ih =>
    obtain ⟨less, same⟩ := ih
    rw [List.flatMap_cons, List.countP_append, List.countP_cons]
    cases first with
    | text t =>
      have own : isCode (.text t) = false := rfl
      have again : reread (.text t) = t.chunks := rfl
      simp only [own, again, Bool.false_eq_true, if_false]
      refine ⟨by omega, fun eq s member => ?_⟩
      rcases List.mem_cons.mp member with here | member
      · obtain rfl := Chunk.text.inj here
        omega
      · exact same (by omega) s member
    | code length inner =>
      have own : isCode (.code length inner) = true := rfl
      have again : (reread (.code length inner)).countP isCode = 1 := rfl
      simp only [own, again, if_true]
      refine ⟨by omega, fun eq s member => same (by omega) s ?_⟩
      rcases List.mem_cons.mp member with here | member
      · exact absurd here nofun
      · exact member

/-- Texts that do not read as code stay as they are when they are read again. -/
theorem Settled.flatMap_reread {list : List Chunk} (settled : Settled list)
    (none : ∀ t, .text t ∈ list → ∀ length inner, .code length inner ∉ Text.chunks t) :
    list.flatMap reread = list := by
  have apart : ∀ chunk ∈ list, chunk.reread = [chunk] := by
    intro chunk member
    cases chunk with
    | code length inner => rfl
    | text t => rw [reread, Text.chunks_of_no_code (none t member), foldr_push (settled.ne_nil member)]
  rw [List.flatMap_congr apart, List.flatMap_singleton']

/-- A document gives back its chunks just if all code in it can be told from text and no text between
pieces of code reads as code. -/
theorem chunks_document_iff (list : List Chunk) : (document list).chunks = merged list ↔
    (∀ length inner, .code length inner ∈ list → (Chunk.code length inner).Clean) ∧
      ∀ t, .text t ∈ merged list → ∀ length inner, .code length inner ∉ Text.chunks t := by
  have settled := settled_merged list
  rw [← document_merged list]
  constructor
  · intro same
    have clean : ∀ chunk ∈ merged list, chunk.Clean := by
      intro chunk member
      cases chunk with
      | text t => trivial
      | code length inner =>
        rw [← same] at member
        exact Text.clean_of_mem_chunks member
    rw [chunks_document settled clean] at same
    refine ⟨fun length inner member => clean _ (code_mem_merged.mpr member), fun t member length inner found => ?_⟩
    have none := (countP_reread (merged list)).2 (congrArg (List.countP isCode) same) t member
    exact absurd (List.countP_eq_zero.mp none _ found) (by simp [isCode])
  · rintro ⟨clean, none⟩
    rw [chunks_document settled fun chunk member => by
      cases chunk with
      | text t => trivial
      | code length inner => exact clean length inner (code_mem_merged.mp member)]
    exact settled.flatMap_reread none

end Chunk

end MarkupTemplates
