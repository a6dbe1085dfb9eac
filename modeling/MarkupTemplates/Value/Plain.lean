import MarkupTemplates.Charset
import MarkupTemplates.Text.Outline
import MarkupTemplates.Value.Basic
import MarkupTemplates.Value.Shortest

namespace MarkupTemplates

/-- A piece of a printed value. A template is printed by evaluating it, which is left to whoever puts
the pieces together. -/
inductive Piece where
  | text (t : Text)
  | evaluated
  deriving DecidableEq, Repr

/-- The pieces as one text, given the text of the template. -/
def Piece.joined (evaluated : Text) (pieces : List Piece) : Text :=
  pieces.flatMap fun piece => match piece with
    | .text t => t
    | .evaluated => evaluated

/-- Numbers of single precision are printed with an exponent from ten to the 13th power on. -/
def floatStyle : NumberStyle := ⟨13, -6, false⟩

/-- Numbers of double precision are printed with an exponent from ten to the 16th power on. -/
def doubleStyle : NumberStyle := ⟨16, -5, false⟩

/-- Outlines of data show an exponent from ten to the 16th power on and below one to ten thousand. -/
def outlineStyle : NumberStyle := ⟨16, -4, true⟩

def Number.text : Number → Text
  | signed n => Text.ofInt n
  | unsigned n => Text.ofNat n

namespace Value

variable {Template : Type}

/-- How a value is printed if nothing is said about its kind. -/
def plain : Value Template → List Piece
  | null => [.text []]
  | bool b => [.text (Outline.flag b)]
  | byte n => [.text (Text.ofInt n)]
  | char c => [.text [c]]
  | short n => [.text (Text.ofInt n)]
  | int n => [.text (Text.ofInt n)]
  | long n => [.text (Text.ofInt n)]
  | float b => [.text ((floatValue b).text .single floatStyle)]
  | double b => [.text ((doubleValue b).text .double doubleStyle)]
  | number n => [.text n.text]
  | date d => [.text (d.text ' ')]
  | bytes b => [.text (Charset.decode .utf8 b)]
  | str t => [.text t]
  | template _ => [.evaluated]
  | other o => [.text o.text]

/-- The value with its kind. Templates are shown as the given function does. -/
def outline (shown : Template → Text) (value : Value Template) : Text :=
  let inner : Option Text := match value with
    | null => none
    | bool b => some (Outline.flag b)
    | byte n => some (Text.ofInt n)
    | char c => some ('\'' :: escaped '\'' c ++ ['\''])
    | short n => some (Text.ofInt n)
    | int n => some (Text.ofInt n)
    | long n => some (Text.ofInt n)
    | float b => some ((floatValue b).text .single outlineStyle)
    | double b => some ((doubleValue b).text .double outlineStyle)
    | number (.signed n) => some (Outline.wrapped "Signed" (Text.ofInt n))
    | number (.unsigned n) => some (Outline.wrapped "Unsigned" (Text.ofNat n))
    | date d => some (d.text 'T')
    | bytes b => some (Outline.list (b.map fun byte => Text.ofNat byte.toNat))
    | str t => some t.quoted
    | template t => some (shown t)
    | other o => some o.text.quoted
  match inner with
  | some inner => Outline.wrapped value.kind.name inner
  | none => value.kind.name

end Value

end MarkupTemplates
