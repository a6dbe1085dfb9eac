import MarkupTemplates.Program.Basic

namespace MarkupTemplates

/-- The first expression between a dollar sign with an opening brace and a closing brace: what comes
before it, its text, and what comes after. -/
def interpolation? (t : Text) : Option (Text × Text × Text) :=
  match Text.cut? ['$', '\x7b'] t with
  | some (before, inner) => (inner.cutAt? '\x7d').map fun (expression, rest) => (before, expression, rest)
  | none => none

theorem eq_append_of_interpolation? {t before expression rest : Text}
    (h : interpolation? t = some (before, expression, rest)) :
    t = before ++ ['$', '\x7b'] ++ expression ++ '\x7d' :: rest := by
  unfold interpolation? at h
  split at h
  · next found =>
    obtain ⟨⟨expression', rest'⟩, closed, eq⟩ := Option.map_eq_some_iff.1 h
    obtain ⟨rfl, parts⟩ := Prod.mk.inj eq
    obtain ⟨rfl, rfl⟩ := Prod.mk.inj parts
    rw [Text.eq_append_of_cut? found, Text.eq_append_of_cutAt? closed]
    simp
  · simp at h

/-- Text is a statement unless there is none. -/
def textStatements (t : Text) : List Statement := if t = [] then [] else [.text t]

/-- The statements of a text that stands at byte `offset` of the source: what is between the
interpolated expressions is written as it is. -/
def interpolate (offset : Nat) (t : Text) : Except CodeError (List Statement) :=
  match h : interpolation? t with
  | none => .ok (textStatements t)
  | some (before, expression, rest) =>
    have : rest.length < t.length := by
      rw [eq_append_of_interpolation? h]
      simp only [List.length_append, List.length_cons]
      omega
    let start := offset + Text.byteSize before
    match Expression.read expression with
    | .error e => .error { message := e.message, offset := some start }
    | .ok e => do
      let more ← interpolate (start + 3 + Text.byteSize expression) rest
      return textStatements before ++ .value e :: more
termination_by t.length

end MarkupTemplates
