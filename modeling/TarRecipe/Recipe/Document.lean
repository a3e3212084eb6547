import TarRecipe.Json.Reader
import TarRecipe.Recipe.Command

/-! Build files as JSON. -/

namespace TarRecipe.Document

open Json

/-! ## Writing -/

def writeList (xs : List (List Char)) : List Char :=
  '[' :: [','].intercalate xs ++ [']']

def writeArgs (args : List String) : List Char := writeList (args.map writeString)

def writeCommand (c : Command) : List Char :=
  '{' :: writeString "Name" ++ ':' :: writeString c.name ++ ',' :: writeString "Args" ++
    ':' :: writeArgs c.args ++ ['}']

def write (r : Recipe) : String :=
  String.ofList ('{' :: writeString "Commands" ++ ':' :: writeList (r.map writeCommand) ++ ['}'])

/-! ## Reading -/

def readArgs (s : List Char) : Except Halt (List String × List Char) := readList readText s

structure Fields where
  name : Option String
  args : Option (List String)

def Fields.read (f : Fields) (key : String) (s : List Char) : Except Halt (Fields × List Char) :=
  if key = "Name" ∨ key = "name" then
    if f.name.isSome then .error ((Problem.duplicateField "Name").ofRecord s)
    else do
      let (x, s) ← readText (← readColon s)
      return ({ f with name := some x }, s)
  else if key = "Args" ∨ key = "args" then
    if f.args.isSome then .error ((Problem.duplicateField "Args").ofRecord s)
    else do
      let (x, s) ← readArgs (← readColon s)
      return ({ f with args := some x }, s)
  else do
    let s ← skipValue (← readColon s)
    return (f, s)

def readFields (s : List Char) : Except Halt (Command × List Char) := do
  let (f, s) ← readMembers Fields.read ⟨none, none⟩ s
  match f.name with
  | some name => return (⟨name, f.args.getD []⟩, s)
  | none => .error ((Problem.missingField "Name").here s)

def readListEnd (s : List Char) : Except Halt (List Char) :=
  match skipSpace s with
  | [] => .error (Problem.unfinishedList.ahead [])
  | ']' :: t => .ok t
  | ',' :: t =>
    match skipSpace t with
    | ']' :: t => .error (Problem.commaAtEnd.ahead (']' :: t))
    | t => .error (Problem.charactersAtEnd.ahead t)
  | t => .error (Problem.charactersAtEnd.ahead t)

def readTuple (s : List Char) : Except Halt (Command × List Char) :=
  match skipSpace s with
  | [] => .error (Problem.unfinishedList.ahead [])
  | ']' :: t => .error ((Problem.missingElement 0 "struct Command with 2 elements").here t)
  | t => do
    let (name, s) ← readText t
    match skipSpace s with
    | [] => .error (Problem.unfinishedList.ahead [])
    | ']' :: t => return (⟨name, []⟩, t)
    | ',' :: t =>
      match skipSpace t with
      | [] => .error (Problem.unfinishedValue.ahead [])
      | ']' :: t => .error (Problem.commaAtEnd.ahead (']' :: t))
      | t => do
        let (args, s) ← readArgs t
        return (⟨name, args⟩, ← readListEnd s)
    | t => .error (Problem.noCommaOrBracket.ahead t)

def readCommand (s : List Char) : Except Halt (Command × List Char) :=
  match skipSpace s with
  | [] => .error (Problem.unfinishedValue.ahead [])
  | '{' :: t => readFields t
  | '[' :: t => readTuple t
  | t => .error (mismatch "struct Command" t)

def readCommands (commands : Option Recipe) (key : String) (s : List Char) :
    Except Halt (Option Recipe × List Char) :=
  if key = "Commands" ∨ key = "commands" then
    if commands.isSome then .error ((Problem.duplicateField "Commands").ofRecord s)
    else do
      let (x, s) ← readList readCommand (← readColon s)
      return (some x, s)
  else do
    let s ← skipValue (← readColon s)
    return (commands, s)

def readRecipe : List Char → Except Halt (Recipe × List Char)
  | '{' :: s => do
    let (commands, s) ← readMembers readCommands none s
    return (commands.getD [], s)
  | s => .error (mismatch "struct Tarfile" s)

end TarRecipe.Document
