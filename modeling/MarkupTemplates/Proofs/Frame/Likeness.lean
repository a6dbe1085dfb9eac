import MarkupTemplates.Proofs.Dictionary
import MarkupTemplates.Proofs.Frame.Stage
import MarkupTemplates.Proofs.Rendering.Likeness

namespace MarkupTemplates

variable {α β : Type}

/-- The same names with values that are related. -/
def Dictionary.Alike (r : α → β → Prop) (d : Dictionary α) (e : Dictionary β) : Prop :=
  List.Forall₂ (fun one other => one.1 = other.1 ∧ r one.2 other.2) d e

namespace Dictionary.Alike

variable {r : α → β → Prop} {d : Dictionary α} {e : Dictionary β}

theorem get? (alike : Dictionary.Alike r d e) (key : Text) : Option.Rel r (d.get? key) (e.get? key) := by
  induction alike with
  | nil => exact .none
  | @cons entry entry' d e first _ ih =>
    obtain ⟨k, v⟩ := entry
    obtain ⟨k', v'⟩ := entry'
    obtain ⟨rfl, values⟩ := first
    rw [get?_cons, get?_cons]
    by_cases same : k = key
    · rw [if_pos same, if_pos same]
      exact .some values
    · rw [if_neg same, if_neg same]
      exact ih

theorem insert (alike : Dictionary.Alike r d e) (key : Text) {v : α} {w : β} (values : r v w) :
    Dictionary.Alike r (d.insert key v) (e.insert key w) := by
  induction alike with
  | nil => exact .cons ⟨rfl, values⟩ .nil
  | @cons entry entry' d e first rest ih =>
    obtain ⟨k, v⟩ := entry
    obtain ⟨k', v'⟩ := entry'
    obtain ⟨rfl, values'⟩ := first
    rw [Dictionary.insert, Dictionary.insert]
    by_cases same : key = k
    · rw [if_pos same, if_pos same]
      exact .cons ⟨rfl, values⟩ rest
    · rw [if_neg same, if_neg same]
      by_cases less : key < k
      · rw [if_pos less, if_pos less]
        exact .cons ⟨rfl, values⟩ (.cons ⟨rfl, values'⟩ rest)
      · rw [if_neg less, if_neg less]
        exact .cons ⟨rfl, values'⟩ ih

theorem overlay {above : Dictionary α} {above' : Dictionary β} (alike : Dictionary.Alike r d e)
    (upper : Dictionary.Alike r above above') : Dictionary.Alike r (d.overlay above) (e.overlay above') := by
  rw [Dictionary.overlay, Dictionary.overlay]
  induction upper generalizing d e with
  | nil => exact alike
  | @cons entry entry' above above' first _ ih =>
    rw [List.foldl_cons, List.foldl_cons, ← first.1]
    exact ih (alike.insert entry.1 first.2)

end Dictionary.Alike

/-- Parameters that differ in nothing but templates that are related. -/
abbrev Parameters.Alike (rel : Template → Template → Prop) (one other : Option Parameters) : Prop :=
  Option.Rel (Dictionary.Alike (Value.Alike rel)) one other

/-- The frames show the same but for templates that are related, and have the same output. What is around them does not
matter. -/
structure Frame.Mirrors (rel : Template → Template → Prop) (f g : Frame) : Prop where
  parameters : Parameters.Alike rel f.parameters g.parameters
  locals : Dictionary.Alike (Value.Alike rel) f.locals g.locals
  output : f.output = g.output

namespace Frame.Mirrors

variable {rel : Template → Template → Prop} {f g : Frame}

theorem given (mirrors : f.Mirrors rel g) : Dictionary.Alike (Value.Alike rel) f.given g.given := by
  have parameters := mirrors.parameters
  rw [Frame.given, Frame.given]
  generalize f.parameters = one at parameters
  generalize g.parameters = other at parameters
  cases parameters with
  | none => exact .nil
  | some alike => exact alike

theorem getD (mirrors : f.Mirrors rel g) (key : Text) :
    ((f.get? key).getD .null).Alike rel ((g.get? key).getD .null) := by
  have inner := mirrors.locals.get? key
  have outer := mirrors.given.get? key
  rw [Frame.get?, Frame.get?]
  generalize Dictionary.get? f.locals key = one at inner
  generalize Dictionary.get? g.locals key = other at inner
  cases inner with
  | some values => exact values
  | none =>
    rw [Option.none_or, Option.none_or]
    generalize Dictionary.get? f.given key = one at outer
    generalize Dictionary.get? g.given key = other at outer
    cases outer with
    | none => exact .plain .null
    | some values => exact values

theorem snapshot (mirrors : f.Mirrors rel g) : Parameters.Alike rel (some f.snapshot) (some g.snapshot) :=
  .some (mirrors.given.overlay mirrors.locals)

theorem insert (mirrors : f.Mirrors rel g) (key : Text) {v w : TemplateValue} (values : v.Alike rel w) :
    (f.insert key v).Mirrors rel (g.insert key w) :=
  { mirrors with locals := mirrors.locals.insert key values }

theorem written (mirrors : f.Mirrors rel g) (output : Option Output) :
    Mirrors rel { f with output } { g with output } :=
  { mirrors with output := rfl }

end Frame.Mirrors

end MarkupTemplates
