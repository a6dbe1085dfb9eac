import MarkupTemplates.Proofs.ParsedTemplate.MacroOrigin

namespace MarkupTemplates

/-- A walk through the source can come to the duty. -/
def Duty.Arises (names : DirectiveNames) (source : Text) (duty : Duty) : Prop :=
  duty.From names source.nodes ∧ duty.Declared names source

namespace Duty.Arises

variable {names : DirectiveNames} {source : Text}

theorem roots : (Duty.row none source.nodes).Arises names source := ⟨⟨[], .roots, nofun⟩, nofun⟩

/-- A row that arises is a part of the tree, and stands somewhere in the source. -/
theorem placed {opened : Option OpenMacro} {nodes : List Node} (arises : (row opened nodes).Arises names source) :
    ∃ lo hi, Placed source lo hi nodes := by
  obtain ⟨⟨before, siblings, _⟩, _⟩ := arises
  obtain ⟨_, hi, whole⟩ := (placed_nodes source).siblings siblings
  obtain ⟨mid, _, own⟩ := whole.split
  exact ⟨mid, hi, own⟩

theorem comment {opened : Option OpenMacro} {span : Span} {rest : List Node}
    (arises : (row opened (.comment span :: rest)).Arises names source) :
    (row ((commentRole names source opened span).opens? opened) rest).Arises names source :=
  ⟨arises.1.comment, fun _ => declared_of_opens? arises.2⟩

theorem later {opened : Option OpenMacro} {node : Node} {rest : List Node}
    (arises : (row opened (node :: rest)).Arises names source) : (row opened rest).Arises names source :=
  ⟨arises.1.later, arises.2⟩

theorem children {opened : Option OpenMacro} {tag : Tag} {stop : Nat} {children rest : List Node}
    (arises : (row opened (.element tag stop children :: rest)).Arises names source) :
    (row none children).Arises names source := by
  obtain ⟨⟨before, siblings, _⟩, _⟩ := arises
  exact ⟨⟨[], .children siblings (List.mem_append_right _ List.mem_cons_self), nofun⟩, nofun⟩

/-- A macro comment that is open stands in the source, in front of the row. -/
theorem opened_within {found : OpenMacro} {nodes : List Node}
    (arises : (row (some found) nodes).Arises names source) : found.comment.Within source := by
  obtain ⟨⟨before, siblings, earlier⟩, _⟩ := arises
  obtain ⟨_, _, whole⟩ := (placed_nodes source).siblings siblings
  obtain ⟨_, _, _, _, own⟩ := whole.of_mem (List.mem_append_left _ (earlier found rfl))
  cases own with
  | comment _ atStart forward atStop _ => exact ⟨atStart, atStop, forward⟩

theorem holdsMacro {duty : Duty} {head : MacroHead} {body : MacroBody} {segments : List Segment}
    (arises : duty.Arises names source) (extracts : duty.Extracts names source head body segments) :
    HoldsMacro names source head body := ⟨duty, segments, extracts, arises⟩

/-- What holds of the rows that a walk can come to if it holds of those that come next, holds of all of
them. -/
@[elab_as_elim]
theorem row_induction
    {motive : (opened : Option OpenMacro) → (nodes : List Node) → (row opened nodes).Arises names source → Prop}
    (nil : ∀ opened arises, motive opened [] arises)
    (comment : ∀ opened span rest arises, motive _ rest (Arises.comment arises) →
      motive opened (.comment span :: rest) arises)
    (element : ∀ opened tag stop children rest arises, motive none children (Arises.children arises) →
      motive opened rest (Arises.later arises) → motive opened (.element tag stop children :: rest) arises)
    (opened : Option OpenMacro) (nodes : List Node) (arises : (row opened nodes).Arises names source) :
    motive opened nodes arises := by
  induction nodes using MarkupTemplates.row_induction generalizing opened with
  | nil => exact nil opened arises
  | comment span rest ih => exact comment opened span rest arises (ih _ arises.comment)
  | element tag stop inner rest ihChildren ih =>
    exact element opened tag stop inner rest arises (ihChildren none arises.children) (ih opened arises.later)

end Duty.Arises

end MarkupTemplates
