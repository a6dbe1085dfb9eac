import MarkupTemplates.Expression

namespace MarkupTemplates

/-- What a compiled template does, step by step. -/
inductive Statement where
  | text (t : Text)
  | value (e : Expression)
  /-- The first branch whose condition holds; only the last branch may be without condition. -/
  | branches (all : List (Option Expression × List Statement))
  | each (var : Text) (list : Expression) (body : List Statement)
  | breakIf (condition : Expression)
  | set (var : Text) (e : Expression)
  /-- Makes the macro of that name a variable. -/
  | bind (name : Text)

abbrev Program := List Statement

end MarkupTemplates
