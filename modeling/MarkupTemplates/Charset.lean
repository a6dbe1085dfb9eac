import MarkupTemplates.Text.Blank

namespace MarkupTemplates

/-- The encodings that output can have. -/
inductive Charset where
  | utf8
  | latin1
  | ascii
  deriving DecidableEq, Repr

/-- All characters have 7 bits. -/
def Text.isAscii (t : Text) : Bool := t.all fun c => c.toNat < 0x80

/-- A character of several bytes whose first bytes have been read: the bits so far, how many bytes are
to come, and what the next one may be. -/
structure Unfinished where
  code : Nat
  missing : Nat
  low : Nat
  high : Nat
  deriving DecidableEq, Repr

namespace Charset

def name : Charset → Text
  | utf8 => "UTF-8"
  | latin1 => "ISO-8859-1"
  | ascii => "US-ASCII"

/-- The names that an encoding goes by, in lower case. -/
def aliases : Charset → List Text
  | utf8 => ["utf-8", "utf8"]
  | latin1 => ["iso-8859-1", "iso8859-1", "iso_8859_1", "latin1", "latin-1", "l1"]
  | ascii => ["us-ascii", "ascii", "ascii7"]

def all : List Charset := [utf8, latin1, ascii]

/-- Case and blanks around the name do not matter. -/
def ofName? (name : Text) : Option Charset :=
  all.find? fun charset => charset.aliases.contains (Text.lower name.trim)

/-- The text in characters of one byte up to the limit; others become question marks. -/
def encodeUpTo (limit : Nat) (t : Text) : List UInt8 :=
  t.map fun c => if c.toNat ≤ limit then c.toNat.toUInt8 else '?'.toNat.toUInt8

/-- Text of ASCII alone has the same bytes in all charsets. -/
def encode (charset : Charset) (t : Text) : List UInt8 :=
  match charset with
  | utf8 => t.flatMap String.utf8EncodeChar
  | latin1 => if t.isAscii then t.flatMap String.utf8EncodeChar else encodeUpTo 0xFF t
  | ascii => if t.isAscii then t.flatMap String.utf8EncodeChar else encodeUpTo 0x7F t

/-- What is read where the bytes stand for no character. -/
def replacement : Char := '\ufffd'

/-- The first byte of a character. -/
def beginUtf8 (b : Nat) : Text × Option Unfinished :=
  if b < 0x80 then ([Char.ofNat b], none)
  else if 0xC2 ≤ b ∧ b ≤ 0xDF then ([], some ⟨b - 0xC0, 1, 0x80, 0xBF⟩)
  else if b = 0xE0 then ([], some ⟨0, 2, 0xA0, 0xBF⟩)
  else if b = 0xED then ([], some ⟨0xD, 2, 0x80, 0x9F⟩)
  else if 0xE1 ≤ b ∧ b ≤ 0xEF then ([], some ⟨b - 0xE0, 2, 0x80, 0xBF⟩)
  else if b = 0xF0 then ([], some ⟨0, 3, 0x90, 0xBF⟩)
  else if 0xF1 ≤ b ∧ b ≤ 0xF3 then ([], some ⟨b - 0xF0, 3, 0x80, 0xBF⟩)
  else if b = 0xF4 then ([], some ⟨4, 3, 0x80, 0x8F⟩)
  else ([replacement], none)

/-- A byte after the unfinished character. One that does not fit puts a replacement for what there is
and begins anew. -/
def stepUtf8 (state : Option Unfinished) (b : Nat) : Text × Option Unfinished :=
  match state with
  | none => beginUtf8 b
  | some s =>
    if s.low ≤ b ∧ b ≤ s.high then
      let code := 64 * s.code + (b - 0x80)
      if s.missing ≤ 1 then ([Char.ofNat code], none)
      else ([], some ⟨code, s.missing - 1, 0x80, 0xBF⟩)
    else
      let (t, next) := beginUtf8 b
      (replacement :: t, next)

def decodeUtf8 (state : Option Unfinished) : List UInt8 → Text
  | [] => if state.isSome then [replacement] else []
  | b :: rest => (stepUtf8 state b.toNat).1 ++ decodeUtf8 (stepUtf8 state b.toNat).2 rest

/-- The characters of 7 bits that the bytes are, each by itself. -/
def decodeAscii (bytes : List UInt8) : Text :=
  bytes.map fun b => if b.toNat < 0x80 then Char.ofNat b.toNat else replacement

def decode (charset : Charset) (bytes : List UInt8) : Text :=
  match charset with
  | utf8 => decodeUtf8 none bytes
  | latin1 => bytes.map fun b => Char.ofNat b.toNat
  | ascii =>
    match String.fromUTF8? bytes.toByteArray with
    | some s => if Text.isAscii s.toList then s.toList else decodeAscii bytes
    | none => decodeAscii bytes

end Charset

end MarkupTemplates
