import MarkupTemplates.Resource
import MarkupTemplates.Text.Numeral
import MarkupTemplates.Text.Quoted

namespace MarkupTemplates

/-- What can be wrong with a template. Directives are cited by name and value as they are written. -/
inductive ParseFault where
  | missingMacroName (directive value : Text)
  | invalidMacroParameters (directive value : Text)
  | invalidMacroName (directive name value : Text)
  /-- The name of the macro is a variable of another type already. -/
  | duplicateMacro (name found expected : Text)
  | unclosedMacro (value : Text)
  /-- The dialect has no code for the directive. -/
  | invalidDirective (directive value message : Text)
  | invalidTemplate (name message : Text)
  /-- Only words that are no attribute names let macros breed macros without end. -/
  | endlessMacros
  deriving DecidableEq, Repr

def ParseFault.message : ParseFault → Text
  | missingMacroName directive value =>
    ("missing macro name in " : Text) ++ directive ++ '=' :: value.quoted
  | invalidMacroParameters directive value =>
    ("invalid macro parameters in " : Text) ++ directive ++ '=' :: value.quoted
  | invalidMacroName directive name value =>
    ("invalid macro name " : Text) ++ name.quoted ++ (" in " : Text) ++ directive ++ '=' :: value.quoted
  | duplicateMacro name found expected =>
    ("duplicate macro variable " : Text) ++ name ++ (", conflicting types: " : Text) ++ found ++
      (", " : Text) ++ expected
  | unclosedMacro value => ("macro " : Text) ++ value.quoted ++ (" is never closed" : Text)
  | invalidDirective directive value message =>
    directive ++ '=' :: value.quoted ++ (": " : Text) ++ message
  | invalidTemplate name message =>
    ("could not compile macro " : Text) ++ name.quoted ++ (": " : Text) ++ message
  | endlessMacros => "macros are nested without end"

/-- A fault and the place of it. Rows and columns count from one, columns in characters. -/
structure ParseError where
  fault : ParseFault
  sourceName : Text
  offset : Nat
  row : Nat
  column : Nat
  near : Text
  deriving DecidableEq, Repr

namespace ParseError

/-- How many characters of the source an error shows. -/
def nearLength : Nat := 72

def excerpt (t : Text) : Text :=
  if t.length ≤ nearLength then t.quoted else Text.quoted (t.take nearLength) ++ ("..." : Text)

/-- The fault at the last character boundary at or before byte `offset`. -/
def locate (fault : ParseFault) (resource : Resource) (offset : Nat) : ParseError :=
  let source := resource.source
  let offset := source.boundaryBefore offset
  let before := source.takeBytes offset
  { fault
    sourceName := resource.name
    offset
    row := 1 + before.count '\n'
    column := 1 + (before.reverse.takeWhile (· != '\n')).length
    near := excerpt (source.dropBytes offset) }

def message (e : ParseError) : Text :=
  e.fault.message ++ ("; in template source " : Text) ++ e.sourceName.quoted ++ (" at row " : Text) ++
    Text.ofNat e.row ++ (", column " : Text) ++ Text.ofNat e.column ++ (" near:\n" : Text) ++ e.near

end ParseError

end MarkupTemplates
