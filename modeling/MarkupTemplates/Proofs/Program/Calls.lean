import MarkupTemplates.Program.OfChunks
import MarkupTemplates.Proofs.ParsedTemplate.Abstraction

namespace MarkupTemplates

variable {name : Text}

/-- A macro is bound, and its value is put into the text. -/
def Program.call (name : Text) : Program := [.bind name, .value ⟨name, .name name, none⟩]

theorem interpolate_interpolated (identifier : name.isIdentifier = true) (other : name ∉ Literal.words)
    (offset : Nat) : interpolate offset (interpolated name) = .ok [.value ⟨name, .name name, none⟩] := by
  have found : interpolation? (interpolated name) = some ([], name, []) := by
    have cut : Text.cut? ['$', '\x7b'] (interpolated name) = some ([], name ++ ['\x7d']) := rfl
    have outside : '\x7d' ∉ name := Text.not_mem_of_isIdentifier identifier (by decide)
    rw [interpolation?, cut]
    simp only [Scan.cutAt?_append [] outside, Option.map_some]
  have ended : interpolate (offset + Text.byteSize [] + 3 + name.byteSize) [] = .ok [] := by
    rw [interpolate]
    rfl
  rw [interpolate]
  split
  · next none =>
    rw [found] at none
    cases none
  · next before expression rest known =>
    rw [found] at known
    obtain ⟨rfl, parts⟩ := Prod.mk.inj (Option.some.inj known)
    obtain ⟨rfl, rfl⟩ := Prod.mk.inj parts
    rw [Expression.read_of_isIdentifier identifier other]
    simp only [ended]
    rfl

namespace ProgramDraft

/-- Code that binds a macro is a statement by itself. -/
theorem takeCode_bind (d : ProgramDraft) (offset : Nat) (name : Text) :
    d.takeCode offset (("bind:" : Text) ++ name) = .ok (d.add [.bind name]) := by
  have parts : splitCode (("bind:" : Text) ++ name) = (("bind" : Text), name) := by
    have cut := @Scan.cutAt?_append ':' "bind" name (by decide)
    rw [splitCode, show ("bind:" : Text) ++ name = ("bind" : Text) ++ ':' :: name from rfl, cut]
    rfl
  unfold takeCode
  rw [parts]
  rfl

end ProgramDraft

/-- What comes of a macro and a call of it. -/
theorem Program.ofChunks_call (identifier : name.isIdentifier = true) (other : name ∉ Literal.words) {length : Nat}
    (size : length < Marker.lengthBound) :
    Program.ofChunks (marker length (("bind:" : Text) ++ name) ++ interpolated name).chunks =
      .ok (Program.call name) := by
  have plain : name.Plain := Text.plain_of_isIdentifier identifier
  have word : Text.Plain "bind:" := by decide
  have front : Text.Plain "$\x7b" := by decide
  have back : Text.Plain "\x7d" := by decide
  have code : Text.Plain (("bind:" : Text) ++ name) := word.append plain
  have call : (interpolated name).Plain := front.append (plain.append back)
  have text : (interpolated name).chunks = [.text (interpolated name)] := by
    have some_text : interpolated name ≠ [] := List.cons_ne_nil _ _
    have unopened : Marker.opening ∉ interpolated name := fun inside => absurd (call _ inside) (by decide)
    rw [Text.chunks_of_no_code (Text.no_code_of_plain unopened), Chunk.foldr_push some_text]
  rw [Text.chunks_marker ⟨size, code⟩, text, ofChunks, ProgramDraft.finish, ProgramDraft.take,
    ProgramDraft.takeCode_bind]
  show (ProgramDraft.take _ _ >>= _) = _
  rw [ProgramDraft.take, interpolate_interpolated identifier other]
  rfl

end MarkupTemplates
