import MarkupTemplates.Value.Plain

namespace MarkupTemplates

/-- What tells a template from others. -/
structure TemplateIdentity where
  name : Option Text
  className : Text
  deriving DecidableEq, Repr

/-- A value as a formatter sees it. -/
abbrev FormatValue := Value TemplateIdentity

/-- How values become text: one function for all, or a formatter for each of some kinds. -/
inductive Formatter where
  | function (format : FormatValue → List Piece)
  | table (entries : List (ValueKind × Formatter))

namespace Formatter

/-- The first entry for the kind. -/
def entry? (kind : ValueKind) : List (ValueKind × Formatter) → Option Formatter
  | [] => none
  | (k, formatter) :: rest => if k = kind then some formatter else entry? kind rest

/-- A table with a formatter for the kind in place of an earlier one. -/
def register (entries : List (ValueKind × Formatter)) (kind : ValueKind) (formatter : Formatter) :
    List (ValueKind × Formatter) :=
  (kind, formatter) :: entries.filter fun entry => entry.1 ≠ kind

mutual

/-- In a table, numbers without an entry of their own kind go by the entry for numbers. -/
def format : Formatter → FormatValue → List Piece
  | function f, value => f value
  | table entries, value =>
    match formatBy entries value.kind value with
    | some pieces => pieces
    | none =>
      if value.kind.isNumber then (formatBy entries .number value).getD value.plain else value.plain

def formatBy : List (ValueKind × Formatter) → ValueKind → FormatValue → Option (List Piece)
  | [], _, _ => none
  | (k, formatter) :: rest, kind, value =>
    if k = kind then some (formatter.format value) else formatBy rest kind value

end

/-- The kinds that a table has entries for. -/
def kinds (entries : List (ValueKind × Formatter)) : List ValueKind :=
  ValueKind.all.filter fun kind => entries.any fun entry => entry.1 = kind

end Formatter

/-- The formatters of a table by kind, looked up once. -/
structure KindFormatters where
  bool : Option Formatter := none
  byte : Option Formatter := none
  char : Option Formatter := none
  short : Option Formatter := none
  int : Option Formatter := none
  long : Option Formatter := none
  float : Option Formatter := none
  double : Option Formatter := none
  number : Option Formatter := none
  date : Option Formatter := none

/-- A function for all values says nothing about a single kind. -/
def KindFormatters.resolve (formatter : Option Formatter) : KindFormatters :=
  match formatter with
  | some (.table entries) =>
    let of (kind : ValueKind) : Option Formatter := Formatter.entry? kind entries
    let numeric (kind : ValueKind) : Option Formatter := (of kind).or (of .number)
    { bool := of .bool
      byte := numeric .byte
      char := of .char
      short := numeric .short
      int := numeric .int
      long := numeric .long
      float := numeric .float
      double := numeric .double
      number := of .number
      date := of .date }
  | _ => {}

end MarkupTemplates
