import MarkupTemplates.Text.Basic

namespace MarkupTemplates

/-- What a directive asks for. All kinds but the last two are statements. -/
inductive DirectiveKind where
  | ifTrue
  | elseIf
  | otherwise
  | forEach
  | breakIf
  | set
  | var
  /-- Closes the statement that its value names. -/
  | close
  /-- Sets apart a piece of the template under a name of its own. -/
  | defineMacro
  deriving DecidableEq, Repr

namespace DirectiveKind

def all : List DirectiveKind :=
  [ifTrue, elseIf, otherwise, forEach, breakIf, set, var, close, defineMacro]

def isStatement (kind : DirectiveKind) : Bool := kind != close && kind != defineMacro

def defaultName : DirectiveKind → Text
  | ifTrue => "if"
  | elseIf => "elseif"
  | otherwise => "else"
  | forEach => "foreach"
  | breakIf => "breakif"
  | set => "set"
  | var => "var"
  | close => "end"
  | defineMacro => "macro"

/-- The setting that gives the kind another name. -/
def setting (kind : DirectiveKind) : Text := kind.defaultName ++ (".directive" : Text)

end DirectiveKind

end MarkupTemplates
