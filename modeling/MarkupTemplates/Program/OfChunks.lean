import MarkupTemplates.Marker
import MarkupTemplates.Program.Interpolation

namespace MarkupTemplates

/-- The head of a block that has not been closed yet. -/
inductive BlockHead where
  | ifTrue (condition : Expression)
  /-- A further branch, by its word and where it stands. -/
  | branch (word : Text) (condition : Option Expression) (offset : Nat)
  | each (var : Text) (list : Expression)

/-- A program in the making: the statements of the innermost open block, and the heads of the open
blocks from the inside out, each with the statements before it. -/
structure ProgramDraft where
  offset : Nat := 0
  statements : List Statement := []
  opened : List (BlockHead × List Statement) := []

namespace ProgramDraft

/-- Blank text between two branches does not part them. -/
def withoutBlankEnd (statements : List Statement) : List Statement :=
  (statements.reverse.dropWhile fun s => match s with
    | .text t => Text.onlyBlanks t
    | _ => false).reverse

/-- Whether another branch can follow: there is a condition for the last one so far. -/
def isOpenEnded (branches : List (Option Expression × List Statement)) : Bool :=
  match branches.getLast? with
  | some (condition, _) => condition.isSome
  | none => false

/-- The statements before a block together with the block. -/
def closed (before : List Statement) (head : BlockHead) (body : List Statement) :
    Except CodeError (List Statement) :=
  match head with
  | .ifTrue condition => .ok (before ++ [.branches [(some condition, body)]])
  | .each var list => .ok (before ++ [.each var list body])
  | .branch word condition offset =>
    let before := withoutBlankEnd before
    match before.getLast? with
    | some (.branches branches) =>
      if isOpenEnded branches then
        .ok (before.dropLast ++ [.branches (branches ++ [(condition, body)])])
      else .error { message := word ++ (" without if" : Text), offset }
    | _ => .error { message := word ++ (" without if" : Text), offset }

def add (d : ProgramDraft) (statements : List Statement) : ProgramDraft :=
  { d with statements := d.statements ++ statements }

def enter (d : ProgramDraft) (head : BlockHead) : ProgramDraft :=
  { d with statements := [], opened := (head, d.statements) :: d.opened }

/-- A piece of code is a word, and what follows the colon after it. -/
def splitCode (code : Text) : Text × Text := (code.cutAt? ':').getD (code, [])

/-- The draft with the code that stands at byte `offset` of the source. -/
def takeCode (d : ProgramDraft) (offset : Nat) (code : Text) : Except CodeError ProgramDraft :=
  let (word, args) := splitCode code
  if word = ("if" : Text) then do
    return d.enter (.ifTrue (← Expression.read args))
  else if word = ("elseif" : Text) then do
    return d.enter (.branch word (some (← Expression.read args)) offset)
  else if word = ("else" : Text) then
    .ok (d.enter (.branch word none offset))
  else if word = ("foreach" : Text) then
    match args.cutAt? ':' with
    | some (var, list) => do return d.enter (.each var (← Expression.read list))
    | none => .error { message := "malformed foreach", offset }
  else if word = ("breakif" : Text) then do
    return d.add [.breakIf (← Expression.read args)]
  else if word = ("set" : Text) then
    match args.cutAt? ':' with
    | some (var, e) => do return d.add [.set var (← Expression.read e)]
    | none => .error { message := "malformed set", offset }
  else if word = ("var" : Text) then .ok d
  else if word = ("bind" : Text) then .ok (d.add [.bind args])
  else if word = ("end" : Text) then
    match d.opened with
    | (head, before) :: opened => do
      return { d with statements := ← closed before head d.statements, opened }
    | [] => .error { message := "end without statement", offset }
  else .error { message := ("unknown code " : Text) ++ Text.quoted code, offset }

def take (d : ProgramDraft) (chunk : Chunk) : Except CodeError ProgramDraft :=
  match chunk with
  | .text t => do
    return { d.add (← interpolate d.offset t) with offset := d.offset + t.byteSize }
  | .code length code => ({ d with offset := d.offset + length }).takeCode d.offset code

/-- All blocks have to be closed at the end. -/
def finish (d : ProgramDraft) : List Chunk → Except CodeError Program
  | [] =>
    if d.opened.isEmpty then .ok d.statements
    else .error { message := "statement is never closed", offset := d.offset }
  | chunk :: rest => do finish (← d.take chunk) rest

end ProgramDraft

/-- The program of a parsed template. Text between code may hold interpolated expressions. -/
def Program.ofChunks (chunks : List Chunk) : Except CodeError Program :=
  ProgramDraft.finish {} chunks

end MarkupTemplates
