import MarkupTemplates.Text.Basic
import MarkupTemplates.Value.Binary
import MarkupTemplates.Value.DateTime

namespace MarkupTemplates

/-- The kinds of values, for each of which a formatter can be registered. -/
inductive ValueKind where
  | null
  | bool
  | byte
  | char
  | short
  | int
  | long
  | float
  | double
  | number
  | date
  | bytes
  | str
  | template
  | other
  deriving DecidableEq, Repr

/-- Something of the host program that a template can print. It is the same as another one only if it
is the very same thing, which its number tells. -/
structure Object where
  id : Nat
  text : Text
  deriving Repr

/-- Whole numbers of up to 128 bits for which there is no other kind. -/
inductive Number where
  | signed (n : Int)
  | unsigned (n : Nat)
  deriving DecidableEq, Repr

/-- What a template can be given and can print. Whole numbers have 8, 16, 32 or 64 bits with sign,
floating-point numbers are given by their bits. -/
inductive Value (Template : Type) where
  | null
  | bool (b : Bool)
  | byte (n : Int)
  | char (c : Char)
  | short (n : Int)
  | int (n : Int)
  | long (n : Int)
  | float (bits : UInt32)
  | double (bits : UInt64)
  | number (n : Number)
  | date (d : DateTime)
  | bytes (b : List UInt8)
  | str (t : Text)
  | template (t : Template)
  | other (o : Object)

namespace ValueKind

def all : List ValueKind :=
  [null, bool, byte, char, short, int, long, float, double, number, date, bytes, str, template, other]

def name : ValueKind → Text
  | null => "Null"
  | bool => "Bool"
  | byte => "Byte"
  | char => "Char"
  | short => "Short"
  | int => "Int"
  | long => "Long"
  | float => "Float"
  | double => "Double"
  | number => "Number"
  | date => "Date"
  | bytes => "Bytes"
  | str => "Str"
  | template => "Template"
  | other => "Other"

/-- The kinds that the formatter for numbers takes care of if they have none of their own. -/
def isNumber : ValueKind → Bool
  | byte | short | int | long | float | double | number => true
  | _ => false

end ValueKind

def floatValue (bits : UInt32) : Binary := BinaryFormat.single.read bits.toNat

def doubleValue (bits : UInt64) : Binary := BinaryFormat.double.read bits.toNat

namespace Value

variable {Template Other : Type}

def kind : Value Template → ValueKind
  | null => .null
  | bool _ => .bool
  | byte _ => .byte
  | char _ => .char
  | short _ => .short
  | int _ => .int
  | long _ => .long
  | float _ => .float
  | double _ => .double
  | number _ => .number
  | date _ => .date
  | bytes _ => .bytes
  | str _ => .str
  | template _ => .template
  | other _ => .other

/-- The same value with another view of templates. -/
def map (f : Template → Other) : Value Template → Value Other
  | null => .null
  | bool b => .bool b
  | byte n => .byte n
  | char c => .char c
  | short n => .short n
  | int n => .int n
  | long n => .long n
  | float b => .float b
  | double b => .double b
  | number n => .number n
  | date d => .date d
  | bytes b => .bytes b
  | str t => .str t
  | template t => .template (f t)
  | other o => .other o

/-- The number to compare by, of double precision. -/
def number? : Value Template → Option Binary
  | byte n => some (.ofInt n)
  | short n => some (.ofInt n)
  | int n => some (.ofInt n)
  | long n => some (.ofInt n)
  | float b => some (floatValue b)
  | double b => some (doubleValue b)
  | number (.signed n) => some (.ofInt n)
  | number (.unsigned n) => some (.ofInt n)
  | _ => none

/-- Equal values are of one kind. Zeros are equal, and what is no number equals nothing. -/
def equals (same : Template → Template → Bool) : Value Template → Value Template → Bool
  | null, null => true
  | bool a, bool b => a = b
  | byte a, byte b => a = b
  | char a, char b => a = b
  | short a, short b => a = b
  | int a, int b => a = b
  | long a, long b => a = b
  | float a, float b => (floatValue a).order? (floatValue b) = some .eq
  | double a, double b => (doubleValue a).order? (doubleValue b) = some .eq
  | number a, number b => a = b
  | date a, date b => a = b
  | bytes a, bytes b => a = b
  | str a, str b => a = b
  | template a, template b => same a b
  | other a, other b => a.id = b.id
  | _, _ => false

end Value

end MarkupTemplates
