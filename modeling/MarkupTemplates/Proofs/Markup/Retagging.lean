import MarkupTemplates.Proofs.Markup.Removal
import MarkupTemplates.Proofs.Markup.Siblings

namespace MarkupTemplates

/-- The start tag of a piece, if the piece begins with one. -/
def Token.tag? : Token → Option WrittenTag
  | startTag tag => some tag
  | rawElement tag _ => some tag
  | _ => none

/-- The piece with another start tag. -/
def Token.retagged (other : WrittenTag) : Token → Token
  | startTag _ => startTag other
  | rawElement _ content => rawElement other content
  | token => token

/-- What the piece holds besides its start tag. -/
def Token.content : Token → Text
  | rawElement _ content => content
  | _ => []

theorem Token.text_of_tag {token : Token} {tag : WrittenTag} (tagged : token.tag? = some tag) :
    token.text = tag.text ++ token.content := by
  cases token with
  | startTag own =>
    obtain rfl := Option.some.inj tagged
    exact (List.append_nil _).symm
  | rawElement own content =>
    obtain rfl := Option.some.inj tagged
    rfl
  | _ => simp [tag?] at tagged

theorem Token.text_retagged {token : Token} {tag : WrittenTag} (tagged : token.tag? = some tag)
    (other : WrittenTag) : (token.retagged other).text = other.text ++ token.content := by
  cases token with
  | startTag own => exact (List.append_nil _).symm
  | rawElement own content => rfl
  | _ => simp [tag?] at tagged

theorem Token.Legible.tagged {token : Token} {tag : WrittenTag} (legible : token.Legible)
    (tagged : token.tag? = some tag) : tag.Legible := by
  cases token with
  | startTag own =>
    obtain rfl := Option.some.inj tagged
    exact legible.1
  | rawElement own content =>
    obtain rfl := Option.some.inj tagged
    exact legible.1
  | _ => simp [tag?] at tagged

/-- A tag of the same name that ends in the same way. -/
structure Alike (tag other : WrittenTag) : Prop where
  name : other.name = tag.name
  slash : other.slash = tag.slash

theorem Alike.isWhole {tag other : WrittenTag} (alike : Alike tag other) : other.isWhole = tag.isWhole := by
  rw [WrittenTag.isWhole, alike.name, alike.slash, WrittenTag.isWhole]

theorem Alike.opensRawText {tag other : WrittenTag} (alike : Alike tag other) :
    other.opensRawText = tag.opensRawText := by
  rw [WrittenTag.opensRawText, alike.isWhole, alike.name, WrittenTag.opensRawText]

/-- Behind another tag of this kind, the rest of a text reads as before. -/
theorem Scan.tokens_retagged {t : Text} {first : Token} {tail : List Token} {tag other : WrittenTag}
    (read : tokens t = first :: tail) (tagged : first.tag? = some tag) (alike : Alike tag other)
    (legible : other.Legible) :
    tokens (spelling (first.retagged other :: tail)) = first.retagged other :: tail := by
  have found := token?_of_tokens read
  have own := token?_legible found
  have rest : tokens (spelling tail) = tail := 
    tokens_after (show tokens t = [first] ++ tail from read)
  have spelled := token?_spells found
  rw [Token.text_of_tag tagged, List.append_assoc] at spelled
  have again : token? (spelling (first.retagged other :: tail)) =
      some (first.retagged other, spelling tail) := by
    rw [spelling_cons, Token.text_retagged tagged, List.append_assoc, token?_startTag legible, element?,
      startTag?_text legible, Option.map_some]
    cases first with
    | startTag _ =>
      obtain rfl := Option.some.inj tagged
      simp only [alike.opensRawText, own.2, Bool.false_eq_true, if_false]
      rfl
    | rawElement _ content =>
      obtain rfl := Option.some.inj tagged
      rw [spelled, token?_startTag own.1, element?, startTag?_text own.1, Option.map_some] at found
      simp only [own.2, if_true] at found
      obtain ⟨same, rest_eq⟩ := Prod.mk.inj (Option.some.inj found)
      have content_eq := (Token.rawElement.inj same).2
      simp only [alike.opensRawText, own.2, if_true, alike.name, content_eq, rest_eq]
      rfl
    | _ => simp [Token.tag?] at tagged
  rw [tokens_of_some again, rest]

/-- An element that is set apart, with another tag of this kind. -/
theorem ElementFormed.retagged {outer : List Text} {start stop : Nat} {tokens : List Token} {tag : Tag}
    {children : List Node} {left : List Text}
    (element : ElementFormed outer start tokens (.element tag stop children) left) :
    ∃ first tail written, tokens = first :: tail ∧ first.tag? = some written ∧ tag = written.located start ∧
      stop = start + (spelling tokens).byteSize ∧
      (first.Legible → written.isWhole = true → first = .startTag written ∧ tail = []) ∧
      ∀ (other : WrittenTag) (move : Nat → Nat), Alike written other →
        Moves move (start + written.text.byteSize) other.text.byteSize →
        Formed [] 0 (first.retagged other :: tail) [.element (other.located 0)
          (spelling (first.retagged other :: tail)).byteSize (children.map (Node.relocated move))] left := by
  cases element with
  | @whole written whole =>
    refine ⟨_, [], written, rfl, rfl, rfl, rfl, fun _ _ => ⟨rfl, rfl⟩, fun other move alike _ => ?_⟩
    have own : ElementFormed [] 0 [.startTag other] _ _ := .whole (alike.isWhole.trans whole)
    have formed := own.formed
    rwa [Nat.zero_add] at formed
  | @raw written content =>
    have noRaw : written.isWhole = true → written.opensRawText = false := by
      intro whole
      rw [WrittenTag.opensRawText, whole]
      rfl
    refine ⟨_, [], written, rfl, rfl, rfl, rfl, fun legible whole => ?_, fun other move _ _ => ?_⟩
    · exact absurd legible.2 (by rw [noRaw whole]; exact Bool.false_ne_true)
    have own : ElementFormed [] 0 [.rawElement other content] _ _ := .raw
    have formed := own.formed
    rwa [Nat.zero_add] at formed
  | @closed written inner children inside name gap open_tag formed others same =>
    refine ⟨_, _, written, rfl, rfl, rfl, rfl, fun _ whole => ?_, fun other move alike moves => ?_⟩
    · exact absurd whole (by rw [open_tag]; exact Bool.false_ne_true)
    have below : Formed [other.name] (0 + other.text.byteSize) inner (children.map (Node.relocated move))
        inside := by
      rw [alike.name, Nat.zero_add]
      exact (formed.mono (by simp)).relocated moves
    have own : ElementFormed [] 0 (.startTag other :: (inner ++ [.endTag name gap])) _ _ :=
      .closed (alike.isWhole.trans open_tag) below others (alike.name ▸ same)
    have formed := own.formed
    rwa [Nat.zero_add] at formed
  | @unclosed written inner children inside open_tag formed =>
    refine ⟨_, _, written, rfl, rfl, rfl, rfl, fun _ whole => ?_, fun other move alike moves => ?_⟩
    · exact absurd whole (by rw [open_tag]; exact Bool.false_ne_true)
    have below : Formed [other.name] (0 + other.text.byteSize) inner (children.map (Node.relocated move))
        inside := by
      rw [alike.name, Nat.zero_add]
      exact (formed.mono (by simp)).relocated moves
    have own := (ElementFormed.unclosed (alike.isWhole.trans open_tag) below).formed
    rwa [Nat.zero_add, alike.name] at own

end MarkupTemplates
