import MarkupTemplates.Dictionary

namespace MarkupTemplates

/-- The type of names that stand for a macro. -/
def templateType : Text := "Template"

/-- What is known about the names of a template. All of them are variables with a type. Those that are
parameters are listed in order of declaration, each with its type at the same place of the second list. -/
structure SymbolTable where
  parameters : List Text := []
  parameterTypes : List Text := []
  names : NameSet := []
  types : Dictionary Text := []
  deriving DecidableEq, Repr

namespace SymbolTable

/-- Gives a name its type. A name that has another type already is refused, with that type. -/
def declare (table : SymbolTable) (name type : Text) : Except Text SymbolTable :=
  match table.types.get? name with
  | some found => if found = type then .ok table else .error found
  | none => .ok { table with
      names := table.names.insert name
      types := table.types.insert name type }

/-- Parameters are variables, too. -/
def declareParameter (table : SymbolTable) (name type : Text) : Except Text SymbolTable :=
  (table.declare name type).map fun table =>
    if table.parameters.contains name then table
    else { table with
      parameters := table.parameters ++ [name]
      parameterTypes := table.parameterTypes ++ [type] }

end SymbolTable

end MarkupTemplates
