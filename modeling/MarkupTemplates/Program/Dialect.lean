import MarkupTemplates.Expression

namespace MarkupTemplates

/-! The code for directives: the word for the statement, and its arguments after colons. -/

namespace Program

/-- The type of variables of which no more is known. -/
def objectType : Text := "Object"

/-- The name in front of the separator and the expression after it. -/
def readAssignment (separator : Char) (value : Text) : Except CodeError (Text × Text) :=
  match value.cutAt? separator with
  | none =>
    .error { message := ("expected `name " : Text) ++ separator :: (" expression`" : Text) }
  | some (var, e) => do
    let e := Text.trim e
    let _ ← Expression.read e
    return (Text.trim var, e)

def declare (symbols : SymbolTable) (name : Text) (asParameter : Bool) :
    Except CodeError SymbolTable :=
  if name.isIdentifier then
    let declared :=
      if asParameter then symbols.declareParameter name objectType else symbols.declare name objectType
    match declared with
    | .ok symbols => .ok symbols
    | .error found =>
      .error { message := name ++ (" was declared as " : Text) ++ found ++ (" before" : Text) }
  else .error { message := name.quoted ++ (" is not a valid variable name" : Text) }

def declareAll (symbols : SymbolTable) : List Text → Except CodeError SymbolTable
  | [] => .ok symbols
  | name :: rest => do declareAll (← declare symbols name true) rest

/-- The code with an expression as its argument. -/
def expressionCode (word value : Text) : Except CodeError Text := do
  return word ++ ':' :: (← Expression.read value).source

def statementCode (directive : Directive) (symbols : SymbolTable) :
    Except CodeError (Text × SymbolTable) :=
  match directive.kind with
  | .ifTrue => do return (← expressionCode "if" directive.value, symbols)
  | .elseIf => do return (← expressionCode "elseif" directive.value, symbols)
  | .otherwise => .ok ("else:", symbols)
  | .breakIf => do return (← expressionCode "breakif" directive.value, symbols)
  | .forEach => do
    let (var, list) ← readAssignment ':' directive.value
    let symbols ← declare symbols var false
    return (("foreach:" : Text) ++ var ++ ':' :: list, symbols)
  | .set => do
    let (var, e) ← readAssignment '=' directive.value
    let symbols ← declare symbols var false
    return (("set:" : Text) ++ var ++ ':' :: e, symbols)
  | .var => do
    let names := (Text.parts ',' directive.value).map Text.trim
    let symbols ← declareAll symbols names
    return (("var:" : Text) ++ Text.joined [','] names, symbols)
  | .close => .error { message := directive.name ++ (" is not a statement" : Text) }
  | .defineMacro => .error { message := directive.name ++ (" is not a statement" : Text) }

/-- The words of statements with a block. -/
def blockWords : List Text := ["if", "elseif", "else", "foreach"]

/-- Names may have a namespace in front of the word, set off by a colon. -/
def endingCode (name : Text) : Text :=
  if blockWords.contains ((Text.parts ':' name).getLastD []) then "end:" else []

def dialect : Dialect where
  statement := statementCode
  ending := endingCode
  binding name := ("bind:" : Text) ++ name

end Program

end MarkupTemplates
