import TarRecipe.Json.Number
import TarRecipe.Json.Text
import TarRecipe.Text.Quoted

/-! Readers of JSON values of a known shape. -/

namespace TarRecipe.Json

def isSpace (c : Char) : Bool := c == ' ' || c == '\n' || c == '\t' || c == '\r'

def skipSpace (s : List Char) : List Char := s.dropWhile isSpace

def readWord : List Char → List Char → Except Halt (List Char)
  | [], s => .ok s
  | _ :: _, [] => .error (Problem.unfinishedValue.here [])
  | w :: ws, c :: s => if c = w then readWord ws s else .error (Problem.unknownWord.ahead (c :: s))

/-! ## Values of the wrong type -/

def wrongType (found expected : String) (rest : Except Halt (List Char)) : Halt :=
  match rest with
  | .ok s => (Problem.wrongType found expected).here s
  | .error h => h

def mismatch (expected : String) (s : List Char) : Halt :=
  match s with
  | 'n' :: t => wrongType "null" expected (readWord ['u', 'l', 'l'] t)
  | 't' :: t => wrongType "boolean `true`" expected (readWord ['r', 'u', 'e'] t)
  | 'f' :: t => wrongType "boolean `false`" expected (readWord ['a', 'l', 's', 'e'] t)
  | '[' :: _ => wrongType "sequence" expected (.ok s)
  | '{' :: _ => wrongType "map" expected (.ok s)
  | '"' :: t =>
    match readString t with
    | .ok (x, t) => wrongType ("string " ++ Text.quoted x) expected (.ok t)
    | .error h => h
  | _ =>
    let number := match s with
      | '-' :: t => readNumber true t
      | t => if t.head?.any isDigit then readNumber false t else .error (Problem.noValue.ahead t)
    match number with
    | .ok (n, t) => wrongType n.kind expected (.ok t)
    | .error h => h

/-! ## Values that are passed over -/

mutual

def skipValueWith : Nat → List Char → Except Halt (List Char)
  | 0, s => .error (Problem.noValue.ahead s)
  | fuel + 1, s =>
    match skipSpace s with
    | [] => .error (Problem.unfinishedValue.ahead [])
    | 'n' :: t => readWord ['u', 'l', 'l'] t
    | 't' :: t => readWord ['r', 'u', 'e'] t
    | 'f' :: t => readWord ['a', 'l', 's', 'e'] t
    | '-' :: t => skipNumber t
    | '"' :: t => skipString t
    | '[' :: t =>
      match skipSpace t with
      | [] => .error (Problem.unfinishedList.ahead [])
      | ']' :: t => .ok t
      | t => skipItemsWith fuel t
    | '{' :: t =>
      match skipSpace t with
      | [] => .error (Problem.unfinishedObject.ahead [])
      | '}' :: t => .ok t
      | t => skipMembersWith fuel t
    | t => if t.head?.any isDigit then skipNumber t else .error (Problem.noValue.ahead t)

def skipItemsWith : Nat → List Char → Except Halt (List Char)
  | 0, s => .error (Problem.noValue.ahead s)
  | fuel + 1, s => do
    let s ← skipValueWith fuel s
    match skipSpace s with
    | [] => .error (Problem.unfinishedList.ahead [])
    | ',' :: t => skipItemsWith fuel t
    | ']' :: t => .ok t
    | t => .error (Problem.noCommaOrBracket.ahead t)

def skipMembersWith : Nat → List Char → Except Halt (List Char)
  | 0, s => .error (Problem.noValue.ahead s)
  | fuel + 1, s =>
    match skipSpace s with
    | [] => .error (Problem.unfinishedObject.ahead [])
    | '"' :: t => do
      let t ← skipString t
      match skipSpace t with
      | [] => .error (Problem.unfinishedObject.ahead [])
      | ':' :: t => do
        let s ← skipValueWith fuel t
        match skipSpace s with
        | [] => .error (Problem.unfinishedObject.ahead [])
        | ',' :: t => skipMembersWith fuel t
        | '}' :: t => .ok t
        | t => .error (Problem.noCommaOrBrace.ahead t)
      | t => .error (Problem.noColon.ahead t)
    | t => .error (Problem.keyIsNoString.ahead t)

end

/-- Passes over a value. Every two steps take at least one character. -/
def skipValue (s : List Char) : Except Halt (List Char) := skipValueWith (2 * s.length + 2) s

/-! ## Values of a known shape -/

def readText (s : List Char) : Except Halt (String × List Char) :=
  match skipSpace s with
  | [] => .error (Problem.unfinishedValue.ahead [])
  | '"' :: t => readString t
  | t => .error (mismatch "a string" t)

def readItemsWith {α : Type} (item : List Char → Except Halt (α × List Char)) :
    Nat → List Char → Except Halt (List α × List Char)
  | 0, s => .error (Problem.noValue.ahead s)
  | fuel + 1, s => do
    let (x, s) ← item s
    match skipSpace s with
    | [] => .error (Problem.unfinishedList.ahead [])
    | ']' :: t => return ([x], t)
    | ',' :: t =>
      match skipSpace t with
      | [] => .error (Problem.unfinishedValue.ahead [])
      | ']' :: t => .error (Problem.commaAtEnd.ahead (']' :: t))
      | t => do
        let (xs, t) ← readItemsWith item fuel t
        return (x :: xs, t)
    | t => .error (Problem.noCommaOrBracket.ahead t)

def readList {α : Type} (item : List Char → Except Halt (α × List Char)) (s : List Char) :
    Except Halt (List α × List Char) :=
  match skipSpace s with
  | [] => .error (Problem.unfinishedValue.ahead [])
  | '[' :: t =>
    match skipSpace t with
    | [] => .error (Problem.unfinishedList.ahead [])
    | ']' :: t => .ok ([], t)
    | t => readItemsWith item t.length t
  | t => .error (mismatch "a sequence" t)

def readColon (s : List Char) : Except Halt (List Char) :=
  match skipSpace s with
  | [] => .error (Problem.unfinishedObject.ahead [])
  | ':' :: t => .ok t
  | t => .error (Problem.noColon.ahead t)

def readMembersWith {α : Type} (member : α → String → List Char → Except Halt (α × List Char)) :
    Nat → α → List Char → Except Halt (α × List Char)
  | 0, _, s => .error (Problem.keyIsNoString.ahead s)
  | fuel + 1, x, s =>
    match s with
    | '"' :: t => do
      let (key, t) ← readString t
      let (x, t) ← member x key t
      match skipSpace t with
      | [] => .error (Problem.unfinishedObject.ahead [])
      | '}' :: t => return (x, t)
      | ',' :: t =>
        match skipSpace t with
        | [] => .error (Problem.unfinishedValue.ahead [])
        | '}' :: t => .error (Problem.commaAtEnd.ahead ('}' :: t))
        | t => readMembersWith member fuel x t
      | t => .error (Problem.noCommaOrBrace.ahead t)
    | t => .error (Problem.keyIsNoString.ahead t)

def readMembers {α : Type} (member : α → String → List Char → Except Halt (α × List Char)) (x : α)
    (s : List Char) : Except Halt (α × List Char) :=
  match skipSpace s with
  | [] => .error (Problem.unfinishedObject.ahead [])
  | '}' :: t => .ok (x, t)
  | t => readMembersWith member t.length x t

def Problem.ofRecord (p : Problem) (s : List Char) : Halt :=
  match skipSpace s with
  | '}' :: t => p.here t
  | t => p.here t

def readAll {α : Type} (value : List Char → Except Halt (α × List Char)) (s : List Char) :
    Except Fault α := do
  let (x, t) ← (value s).mapError (·.locate s)
  match skipSpace t with
  | [] => return x
  | t => .error ((Problem.charactersAtEnd.ahead t).locate s)

end TarRecipe.Json
