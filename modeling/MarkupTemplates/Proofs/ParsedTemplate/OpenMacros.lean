import Mathlib.Tactic.Tauto
import MarkupTemplates.Proofs.ParsedTemplate.Passages

namespace MarkupTemplates

/-- The macro that is open after nodes in a row. -/
def openAfter (names : DirectiveNames) (source : Text) (opened : Option OpenMacro) :
    List Node → Option OpenMacro
  | [] => opened
  | .comment span :: rest =>
    openAfter names source ((commentRole names source opened span).opens? opened) rest
  | .element .. :: rest => openAfter names source opened rest

section

variable (names : DirectiveNames) (source : Text)

def OpensMacro (span : Span) : Prop :=
  ∃ found, CommentDirective.read? span.start (source.at span) = some found ∧
    names.kindOf? found.name = some .defineMacro

def EndsMacro (span : Span) : Prop :=
  ∃ found, CommentDirective.read? span.start (source.at span) = some found ∧
    names.kindOf? found.name = some .close ∧ found.value.trim = ("macro" : Text)

/-- No comment among the nodes has to do with a macro. -/
def Calm (nodes : List Node) : Prop :=
  ∀ span, .comment span ∈ nodes → ¬ OpensMacro names source span ∧ ¬ EndsMacro names source span

/-- A place in a row, told by the nodes before and after it, lies between a macro comment and the next
comment that has to do with a macro, which is one that `closes`. -/
def Between (closes : Span → Prop) (before after : List Node) : Prop :=
  ∃ earlier opening inner inner' closing later, before = earlier ++ .comment opening :: inner ∧
    after = inner' ++ .comment closing :: later ∧ OpensMacro names source opening ∧ closes closing ∧
    Calm names source inner ∧ Calm names source inner'

/-- The place is in the body of a macro. -/
def InRun : List Node → List Node → Prop := Between names source (EndsMacro names source)

/-- The place comes after a macro comment that gives way to another one, and before that one. -/
def GivenUp : List Node → List Node → Prop := Between names source (OpensMacro names source)

/-- The rows of siblings that are reached from the roots through elements that are not macros, where
these elements are not `hidden` in their rows. -/
inductive RowOutside (hidden : List Node → List Node → Prop) (roots : List Node) : List Node → Prop
  | roots : RowOutside hidden roots roots
  | children {before after children : List Node} {tag : Tag} {stop : Nat} :
      RowOutside hidden roots (before ++ .element tag stop children :: after) →
      ¬ hidden before (.element tag stop children :: after) → Walk.declarationOf? names tag = none →
      RowOutside hidden roots children

/-- The directives of a tree, statement attributes and comments, that are neither in an element that is
a macro nor `hidden` in their rows. -/
inductive Outside (hidden : List Node → List Node → Prop) (roots : List Node) : Passage → Prop
  | inTag {before after children : List Node} {tag : Tag} {stop : Nat} {kind : DirectiveKind}
      {a : Attribute} :
      RowOutside names hidden roots (before ++ .element tag stop children :: after) →
      ¬ hidden before (.element tag stop children :: after) → Walk.declarationOf? names tag = none →
      (kind, a) ∈ Walk.statementsOf names tag →
      Outside hidden roots ⟨a.span, .statement (a.statement kind)⟩
  | statement {before after : List Node} {span : Span} {directive : Directive} :
      RowOutside names hidden roots (before ++ .comment span :: after) →
      ¬ hidden before (.comment span :: after) →
      commentRole names source none span = .statement directive →
      Outside hidden roots ⟨span, .statement directive⟩
  | ending {before after : List Node} {span : Span} {name : Text} :
      RowOutside names hidden roots (before ++ .comment span :: after) →
      ¬ hidden before (.comment span :: after) → commentRole names source none span = .ending name →
      Outside hidden roots ⟨span, .ending name⟩

end

section

variable {names : DirectiveNames} {source : Text}

theorem not_endsMacro_of_opensMacro {span : Span} (opens : OpensMacro names source span) :
    ¬ EndsMacro names source span := by
  obtain ⟨found, read, kind⟩ := opens
  rintro ⟨other, read', kind', _⟩
  obtain rfl := Option.some.inj (read.symm.trans read')
  exact absurd (kind.symm.trans kind') nofun

theorem opens?_isSome_iff (opened : Option OpenMacro) (span : Span) :
    ((commentRole names source opened span).opens? opened).isSome = true ↔
      OpensMacro names source span ∨ (opened.isSome = true ∧ ¬ EndsMacro names source span) := by
  unfold commentRole OpensMacro EndsMacro
  cases CommentDirective.read? span.start (source.at span) with
  | none => simp [CommentRole.opens?]
  | some found =>
    cases kind : names.kindOf? found.name with
    | none => cases opened <;> simp [CommentRole.opens?, kind]
    | some kind' =>
      cases kind' with
      | defineMacro => simp [CommentRole.opens?, kind]
      | close =>
        cases opened with
        | none => simp [CommentRole.opens?, kind]
        | some opened =>
          simp only [kind]
          by_cases own : found.value.trim = ("macro" : Text)
          · rw [if_pos own]
            simp only [CommentRole.opens?, Option.some.injEq, exists_eq_left', kind, own]
            simp
          · rw [if_neg own]
            simp only [CommentRole.opens?, Option.some.injEq, exists_eq_left', kind, own]
            simp
      | _ => cases opened <;> simp [CommentRole.opens?, kind]

theorem calm_cons {span : Span} {nodes : List Node} : Calm names source (.comment span :: nodes) ↔
    (¬ OpensMacro names source span ∧ ¬ EndsMacro names source span) ∧ Calm names source nodes := by
  constructor
  · intro calm
    exact ⟨calm span List.mem_cons_self, fun other member => calm other (List.mem_cons_of_mem _ member)⟩
  · rintro ⟨own, others⟩ other member
    rcases List.mem_cons.mp member with eq | member
    · rw [Node.comment.inj eq]
      exact own
    · exact others other member

theorem calm_cons_element {tag : Tag} {stop : Nat} {children nodes : List Node} :
    Calm names source (.element tag stop children :: nodes) ↔ Calm names source nodes := by
  constructor
  · exact fun calm other member => calm other (List.mem_cons_of_mem _ member)
  · intro calm other member
    rcases List.mem_cons.mp member with eq | member
    · exact Node.noConfusion eq
    · exact calm other member

/-- Among the nodes a macro comment is the last comment that has to do with a macro. -/
def Pending (names : DirectiveNames) (source : Text) (nodes : List Node) : Prop :=
  ∃ earlier opening inner, nodes = earlier ++ .comment opening :: inner ∧
    OpensMacro names source opening ∧ Calm names source inner

theorem pending_cons {node : Node} {nodes : List Node} : Pending names source (node :: nodes) ↔
    (∃ opening, node = .comment opening ∧ OpensMacro names source opening ∧ Calm names source nodes) ∨
      Pending names source nodes := by
  constructor
  · rintro ⟨earlier, opening, inner, split, opens, calm⟩
    cases earlier with
    | nil =>
      obtain ⟨rfl, rfl⟩ := List.cons.inj split
      exact Or.inl ⟨opening, rfl, opens, calm⟩
    | cons first earlier =>
      obtain ⟨rfl, rfl⟩ := List.cons.inj split
      exact Or.inr ⟨earlier, opening, inner, rfl, opens, calm⟩
  · rintro (⟨opening, rfl, opens, calm⟩ | ⟨earlier, opening, inner, rfl, opens, calm⟩)
    · exact ⟨[], opening, nodes, rfl, opens, calm⟩
    · exact ⟨node :: earlier, opening, inner, rfl, opens, calm⟩

/-- A macro is open after nodes if one was open before and they leave it so, or if one of them opens it. -/
theorem openAfter_isSome_iff (opened : Option OpenMacro) (nodes : List Node) :
    (openAfter names source opened nodes).isSome = true ↔
      (opened.isSome = true ∧ Calm names source nodes) ∨ Pending names source nodes := by
  induction nodes generalizing opened with
  | nil => simp [openAfter, Calm, Pending]
  | cons node nodes ih =>
    cases node with
    | element tag stop children =>
      rw [openAfter, ih, calm_cons_element, pending_cons]
      simp
    | comment span =>
      rw [openAfter, ih, calm_cons, pending_cons, opens?_isSome_iff]
      have apart : OpensMacro names source span → ¬ EndsMacro names source span := not_endsMacro_of_opensMacro
      simp only [Node.comment.injEq, exists_eq_left']
      by_cases opens : OpensMacro names source span
      · have := apart opens
        tauto
      · tauto

theorem openAfter_append (opened : Option OpenMacro) (first second : List Node) :
    openAfter names source opened (first ++ second) =
      openAfter names source (openAfter names source opened first) second := by
  induction first generalizing opened with
  | nil => rfl
  | cons node first ih => cases node <;> exact ih _

/-- An open macro is closed by the first comment that has to do with a macro. -/
theorem closing_of_openAfter {opened : OpenMacro} {after : List Node}
    (closed : openAfter names source (some opened) after = none) :
    ∃ inner closing later, after = inner ++ .comment closing :: later ∧ Calm names source inner ∧
      (EndsMacro names source closing ∨ OpensMacro names source closing) := by
  induction after generalizing opened with
  | nil => exact absurd closed nofun
  | cons node after ih =>
    cases node with
    | element tag stop children =>
      obtain ⟨inner, closing, later, rfl, calm, closes⟩ := ih closed
      exact ⟨.element tag stop children :: inner, closing, later, rfl, calm_cons_element.mpr calm, closes⟩
    | comment span =>
      by_cases concerns : EndsMacro names source span ∨ OpensMacro names source span
      · exact ⟨[], span, after, rfl, fun _ member => absurd member List.not_mem_nil, concerns⟩
      · have apart := not_or.mp concerns
        have still := (opens?_isSome_iff (some opened) span).mpr (Or.inr ⟨rfl, apart.1⟩)
        obtain ⟨next, eq⟩ := Option.isSome_iff_exists.mp still
        rw [openAfter, eq] at closed
        obtain ⟨inner, closing, later, rfl, calm, closes⟩ := ih closed
        exact ⟨.comment span :: inner, closing, later, rfl, calm_cons.mpr ⟨⟨apart.2, apart.1⟩, calm⟩, closes⟩

/-- In a row where every macro is closed, a place where one is open is either in the body of a macro or
behind a macro comment that gives way to another. -/
theorem openAfter_eq_none_iff {before after : List Node}
    (closed : openAfter names source none (before ++ after) = none) :
    openAfter names source none before = none ↔
      ¬ InRun names source before after ∧ ¬ GivenUp names source before after := by
  have pending : (openAfter names source none before).isSome = true ↔ _ := openAfter_isSome_iff none before
  simp only [Option.isSome_none, Bool.false_eq_true, false_and, false_or] at pending
  constructor
  · intro none
    rw [none] at pending
    constructor <;>
    · rintro ⟨earlier, opening, inner, _, _, _, split, _, opens, _, calm, _⟩
      exact absurd (pending.mpr ⟨earlier, opening, inner, split, opens, calm⟩) nofun
  · rintro ⟨notInRun, notGivenUp⟩
    cases state : openAfter names source none before with
    | none => rfl
    | some opened =>
      obtain ⟨earlier, opening, inner, split, opens, calm⟩ := pending.mp (by rw [state]; rfl)
      rw [openAfter_append, state] at closed
      obtain ⟨inner', closing, later, split', calm', ends | gives⟩ := closing_of_openAfter closed
      · exact absurd ⟨earlier, opening, inner, inner', closing, later, split, split', opens, ends, calm, calm'⟩
          notInRun
      · exact absurd ⟨earlier, opening, inner, inner', closing, later, split, split', opens, gives, calm, calm'⟩
          notGivenUp

theorem passages_append (opened : Option OpenMacro) (first second : List Node) :
    passages names source opened (first ++ second) = passages names source opened first ++
      passages names source (openAfter names source opened first) second := by
  induction first generalizing opened with
  | nil => rfl
  | cons node first ih =>
    cases node with
    | comment span =>
      rw [List.cons_append, passages, passages, openAfter, ih, List.append_assoc]
    | element tag stop children =>
      cases opened with
      | some opened => exact ih (some opened)
      | none =>
        rw [List.cons_append, passages, passages, openAfter, ih, List.append_assoc]

/-- What is behind a macro comment, before the next comment that has to do with a macro. -/
abbrev Withheld (names : DirectiveNames) (source : Text) (before after : List Node) : Prop :=
  InRun names source before after ∨ GivenUp names source before after

variable {roots row : List Node}

/-- Rows outside of macros leave no macro open. -/
def LeavesNoneOpen (names : DirectiveNames) (source : Text) (roots : List Node) : Prop :=
  ∀ row, RowOutside names (Withheld names source) roots row → openAfter names source none row = none

theorem RowOutside.not_withheld_iff (closed : LeavesNoneOpen names source roots) {before after : List Node}
    (reached : RowOutside names (Withheld names source) roots (before ++ after)) :
    ¬ Withheld names source before after ↔ openAfter names source none before = none := by
  rw [openAfter_eq_none_iff (closed _ reached), not_or]

theorem RowOutside.passages_subset (closed : LeavesNoneOpen names source roots)
    (reached : RowOutside names (Withheld names source) roots row) :
    passages names source none row ⊆ passages names source none roots := by
  induction reached with
  | roots => exact List.Subset.refl _
  | @children before after children tag stop reached outside undeclared ih =>
    refine List.Subset.trans (fun passage member => ?_) ih
    rw [passages_append, (reached.not_withheld_iff closed).mp outside, passages, Node.passages, undeclared]
    exact List.mem_append_right _ (List.mem_append_left _ (List.mem_append_right _ member))

theorem mem_passages_of_outside (closed : LeavesNoneOpen names source roots) {passage : Passage}
    (outside : Outside names source (Withheld names source) roots passage) :
    passage ∈ passages names source none roots := by
  cases outside with
  | @inTag before after children tag stop kind a reached outside undeclared member =>
    refine reached.passages_subset closed ?_
    rw [passages_append, (reached.not_withheld_iff closed).mp outside, passages, Node.passages, undeclared]
    refine List.mem_append_right _ (List.mem_append_left _ (List.mem_append_left _ ?_))
    exact List.mem_map.mpr ⟨(kind, a), member, rfl⟩
  | statement reached outside role =>
    refine reached.passages_subset closed ?_
    rw [passages_append, (reached.not_withheld_iff closed).mp outside, passages, role]
    exact List.mem_append_right _ List.mem_cons_self
  | ending reached outside role =>
    refine reached.passages_subset closed ?_
    rw [passages_append, (reached.not_withheld_iff closed).mp outside, passages, role]
    exact List.mem_append_right _ List.mem_cons_self

theorem outside_of_mem_passages (closed : LeavesNoneOpen names source roots) {passage : Passage}
    (before : List Node) {nodes : List Node}
    (reached : RowOutside names (Withheld names source) roots (before ++ nodes))
    (member : passage ∈ passages names source (openAfter names source none before) nodes) :
    Outside names source (Withheld names source) roots passage := by
  induction nodes using row_induction generalizing before with
  | nil => exact absurd member List.not_mem_nil
  | comment span rest ih =>
    rw [passages] at member
    rcases List.mem_append.mp member with own | later
    · have known := commentRole_ok names source (openAfter names source none before) span
      cases role : commentRole names source (openAfter names source none before) span with
      | statement directive =>
        rw [role] at own known
        obtain rfl := List.mem_singleton.mp own
        refine .statement reached ((reached.not_withheld_iff closed).mpr known) ?_
        rw [← known]
        exact role
      | ending name =>
        rw [role] at own known
        obtain rfl := List.mem_singleton.mp own
        refine .ending reached ((reached.not_withheld_iff closed).mpr known) ?_
        rw [← known]
        exact role
      | _ =>
        rw [role] at own
        exact absurd own List.not_mem_nil
    · refine ih (before ++ [.comment span]) ?_ ?_
      · rwa [List.append_assoc]
      · rw [openAfter_append]
        exact later
  | element tag stop children rest ihChildren ih =>
    have later : passage ∈ passages names source (openAfter names source none before) rest →
        Outside names source (Withheld names source) roots passage := by
      intro member
      refine ih (before ++ [.element tag stop children]) ?_ ?_
      · rwa [List.append_assoc]
      · rw [openAfter_append]
        exact member
    cases state : openAfter names source none before with
    | some opened =>
      rw [state] at member later
      exact later member
    | none =>
      rw [state, passages] at member
      rw [state] at later
      rcases List.mem_append.mp member with own | member
      · have outside := (reached.not_withheld_iff closed).mpr state
        rw [Node.passages] at own
        cases declared : Walk.declarationOf? names tag with
        | some declaration =>
          rw [declared] at own
          exact absurd own List.not_mem_nil
        | none =>
          rw [declared] at own
          rcases List.mem_append.mp own with own | inside
          · obtain ⟨statement, found, rfl⟩ := List.mem_map.mp own
            exact .inTag reached outside declared found
          · exact ihChildren [] (.children reached outside declared) inside
      · exact later member

end

end MarkupTemplates
