import MarkupTemplates.Dialect
import MarkupTemplates.Text.Blank
import MarkupTemplates.Text.Letter
import MarkupTemplates.Text.Numeral
import MarkupTemplates.Text.Quoted
import MarkupTemplates.Value.Basic

namespace MarkupTemplates

inductive Comparison where
  | equal
  | notEqual
  | atMost
  | atLeast
  | less
  | greater
  deriving DecidableEq, Repr

inductive Literal where
  | null
  | bool (b : Bool)
  | str (t : Text)
  | long (n : Int)
  deriving DecidableEq, Repr

inductive Operand where
  | literal (l : Literal)
  | name (name : Text)
  | not (o : Operand)
  deriving DecidableEq, Repr

/-- An operand, or two operands that are compared. -/
structure Expression where
  source : Text
  left : Operand
  right : Option (Comparison × Operand)
  deriving DecidableEq, Repr

namespace Comparison

/-- Longer signs come before those that they begin with. -/
def all : List Comparison := [equal, notEqual, atMost, atLeast, less, greater]

def sign : Comparison → Text
  | equal => "=="
  | notEqual => "!="
  | atMost => "<="
  | atLeast => ">="
  | less => "<"
  | greater => ">"

/-- The comparison that the text starts with, and what follows its sign. -/
def leading? (t : Text) : Option (Comparison × Text) :=
  all.findSome? fun comparison => (Text.after? comparison.sign t).map fun rest => (comparison, rest)

/-- The parts on both sides of the first sign. -/
def split? : Text → Option (Text × Comparison × Text)
  | [] => none
  | c :: t =>
    match leading? (c :: t) with
    | some (comparison, right) => some ([], comparison, right)
    | none => (split? t).map fun (left, comparison, right) => (c :: left, comparison, right)

/-- What cannot be put in order is only unequal. -/
def holds (comparison : Comparison) (order : Option Ordering) : Bool :=
  match comparison, order with
  | notEqual, order => order != some .eq
  | _, none => false
  | equal, some order => order == .eq
  | atMost, some order => order != .gt
  | atLeast, some order => order != .lt
  | less, some order => order == .lt
  | greater, some order => order == .gt

end Comparison

theorem Text.length_trim_le (t : Text) : t.trim.length ≤ t.length := by
  have start := (List.dropWhile_sublist (l := t) isBlank).length_le
  have stop := (List.dropWhile_sublist (l := t.trimStart.reverse) isBlank).length_le
  simp only [Text.trim, Text.trimEnd, List.length_reverse] at stop ⊢
  exact Nat.le_trans stop start

namespace Operand

/-- An operand that is not negated. A quotation may hold quotation marks. -/
def readAtom (t : Text) : Except CodeError Operand :=
  match (Text.after? ['\''] t).bind (Text.before? ['\'']) with
  | some quotation => .ok (.literal (.str quotation))
  | none =>
    if t = ("null" : Text) then .ok (.literal .null)
    else if t = ("true" : Text) then .ok (.literal (.bool true))
    else if t = ("false" : Text) then .ok (.literal (.bool false))
    else match Text.signed64? t with
      | some n => .ok (.literal (.long n))
      | none =>
        if Text.isIdentifier t then .ok (.name t)
        else .error { message := ("cannot parse expression " : Text) ++ Text.quoted t }

def read (t : Text) : Except CodeError Operand :=
  match h : t.trim with
  | c :: rest =>
    if c = '!' then
      have : rest.length < t.length := by
        have := Text.length_trim_le t
        rw [h, List.length_cons] at this
        omega
      (read rest).map .not
    else readAtom (c :: rest)
  | [] => readAtom []
termination_by t.length

end Operand

namespace Expression

/-- The source is kept without the blanks around it. -/
def read (t : Text) : Except CodeError Expression := do
  let source := t.trim
  match Comparison.split? source with
  | some (left, comparison, right) =>
    let left ← Operand.read left
    let right ← Operand.read right
    return ⟨source, left, some (comparison, right)⟩
  | none => return ⟨source, ← Operand.read source, none⟩

end Expression

namespace Value

variable {Template : Type}

def ofLiteral : Literal → Value Template
  | .null => .null
  | .bool b => .bool b
  | .str t => .str t
  | .long n => .long n

/-- Null, false, zero and what is empty do not count as true; all else does. -/
def isTrue (value : Value Template) : Bool :=
  match value with
  | null => false
  | bool b => b
  | str t => !t.isEmpty
  | bytes b => !b.isEmpty
  | _ =>
    match value.number? with
    | some n => !n.isZero
    | none => true

def compareTexts (a b : Text) : Ordering :=
  if a < b then .lt else if a = b then .eq else .gt

/-- The order of two values: of numbers by size, of texts by their characters. Others are at best
equal. -/
def order? (same : Template → Template → Bool) (a b : Value Template) : Option Ordering :=
  match a.number?, b.number? with
  | some m, some n => m.order? n
  | _, _ =>
    match a, b with
    | str s, str t => some (compareTexts s t)
    | _, _ => if a.equals same b then some .eq else none

/-- What a loop goes through: the parts of a text between commas, or the numbers from one on. -/
def items (value : Value Template) : List (Value Template) :=
  match value with
  | null => []
  | str t => (Text.parts ',' t).map fun part => str part.trim
  | _ =>
    match value.number? with
    | some n => (List.range n.truncated.toNat).map fun (i : Nat) => long (i + 1)
    | none => [value]

end Value

section Evaluation

variable {Template : Type}

def Operand.eval (lookup : Text → Value Template) : Operand → Value Template
  | literal l => .ofLiteral l
  | name n => lookup n
  | not o => .bool (!(o.eval lookup).isTrue)

def Expression.eval (same : Template → Template → Bool) (lookup : Text → Value Template)
    (e : Expression) : Value Template :=
  match e.right with
  | none => e.left.eval lookup
  | some (comparison, right) =>
    .bool (comparison.holds ((e.left.eval lookup).order? same (right.eval lookup)))

end Evaluation

end MarkupTemplates
