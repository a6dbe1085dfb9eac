import MarkupTemplates.Text.Quoted
import MarkupTemplates.Text.Numeral

namespace MarkupTemplates

/-! How data is shown in messages and in the log: by its parts, with texts in quotation marks. -/

namespace Outline

def flag : Bool → Text
  | true => "true"
  | false => "false"

def option (shown : Option Text) : Text :=
  match shown with
  | none => "None"
  | some t => ("Some(" : Text) ++ t ++ (")" : Text)

def optionalText (t : Option Text) : Text := option (t.map Text.quoted)

def list (shown : List Text) : Text := '[' :: Text.joined ", " shown ++ [']']

def texts (ts : List Text) : Text := list (ts.map Text.quoted)

def set (shown : List Text) : Text := '\x7b' :: Text.joined ", " shown ++ ['\x7d']

/-- A value made up of others, under its own name or its constructor's. -/
def wrapped (name : Text) (shown : Text) : Text := name ++ '(' :: shown ++ [')']

def record (name : Text) (fields : List (Text × Text)) : Text :=
  name ++ ' ' :: '\x7b' :: ' ' ::
    Text.joined ", " (fields.map fun field => field.1 ++ ':' :: ' ' :: field.2) ++ [' ', '\x7d']

end Outline

end MarkupTemplates
