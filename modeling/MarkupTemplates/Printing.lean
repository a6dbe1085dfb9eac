import MarkupTemplates.Formatter
import MarkupTemplates.Settings

namespace MarkupTemplates

/-- How a template prints values and encodes its output, as settled when it is constructed. -/
structure Printing where
  settings : Settings
  filter : Option (Text → Text)
  formatter : Option Formatter
  formatters : KindFormatters
  nullText : Text
  trueText : Text
  falseText : Text
  /-- The configured encoding by its configured name, and what the name means. -/
  outputEncoding : Option Text
  outputCharset : Option Charset

namespace Printing

/-- What the settings ask for. An encoding that is not known is refused, with its name. -/
def ofSettings (settings : Settings) (filter : Option (Text → Text)) (formatter : Option Formatter) :
    Except Text Printing :=
  let printing (encoding : Option Text) (charset : Option Charset) : Printing :=
    { settings, filter, formatter
      formatters := .resolve formatter
      nullText := settings.getOr "null.value" []
      trueText := settings.getOr "true.value" "true"
      falseText := settings.getOr "false.value" "false"
      outputEncoding := encoding
      outputCharset := charset }
  match (Dictionary.get? settings "output.encoding").filter (· ≠ []) with
  | none => .ok (printing none none)
  | some name =>
    match Charset.ofName? name with
    | some charset => .ok (printing (some name) (some charset))
    | none => .error name

def charset (p : Printing) : Charset := p.outputCharset.getD .utf8

/-- The value printed by the formatter, or plainly if there is none. -/
def formatBy (formatter : Option Formatter) (value : FormatValue) : List Piece :=
  match formatter with
  | some formatter => formatter.format value
  | none => value.plain

def formatBytes (p : Printing) (bytes : List UInt8) : Text := p.charset.decode bytes

def serialize (p : Printing) (t : Text) : List UInt8 := p.charset.encode t

/-- The pieces of a printed value. -/
def format (p : Printing) (value : FormatValue) : List Piece :=
  match value with
  | .null => [.text p.nullText]
  | .bool b =>
    match p.formatters.bool with
    | some formatter => formatter.format value
    | none => [.text (if b then p.trueText else p.falseText)]
  | .byte _ => formatBy p.formatters.byte value
  | .char _ => formatBy p.formatters.char value
  | .short _ => formatBy p.formatters.short value
  | .int _ => formatBy p.formatters.int value
  | .long _ => formatBy p.formatters.long value
  | .float _ => formatBy p.formatters.float value
  | .double _ => formatBy p.formatters.double value
  | .number _ => formatBy p.formatters.number value
  | .date _ => formatBy p.formatters.date value
  | .bytes b => [.text (p.formatBytes b)]
  | .str t => [.text t]
  | .template _ => formatBy p.formatter value
  | .other _ => formatBy p.formatter value

/-- Every printed value passes the filter; text of the template itself does not. -/
def filtered (p : Printing) (t : Text) : Text :=
  match p.filter with
  | some filter => filter t
  | none => t

end Printing

end MarkupTemplates
