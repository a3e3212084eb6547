import TarRecipe.Decimal.Shortest
import TarRecipe.Json.Fault

/-! JSON numbers: whole ones of 64 bits are exact, all others are doubles. -/

namespace TarRecipe.Json

inductive Number where
  | natural (n : Nat)
  | negative (n : Nat)
  | double (x : Float)

def floatLayout : Decimal.Layout := ⟨-5, 15⟩

def Number.kind : Number → String
  | .natural n => s!"integer `{n}`"
  | .negative n => s!"integer `-{n}`"
  | .double x => "floating point `" ++ String.ofList (floatLayout.writeFloat x) ++ "`"

def isDigit (c : Char) : Bool := '0' ≤ c && c ≤ '9'

def digitValue (c : Char) : Nat := c.toNat - '0'.toNat

def absorb (limit n : Nat) : List Char → Nat × List Char
  | [] => (n, [])
  | c :: s =>
    if isDigit c ∧ n * 10 + digitValue c ≤ limit then absorb limit (n * 10 + digitValue c) s
    else (n, c :: s)

def maxSignificand : Nat := 0xFFFFFFFFFFFFFFFF
def maxExponent : Nat := 0x7FFFFFFF

def power10 (e : Nat) : Float := Float.ofScientific 1 false e

/-- The double `n * 10 ^ e`, rounded once for the power and once for the result. -/
def scaled (n : Nat) (e : Int) : Option Float :=
  let x := Float.ofNat n
  if 0 ≤ e then
    if n = 0 then some 0
    else if e ≤ 308 then
      let y := x * power10 e.toNat
      if y.isInf then none else some y
    else none
  else if -308 ≤ e then some (x / power10 (-e).toNat)
  else if -616 ≤ e then some (x / power10 308 / power10 (-e - 308).toNat)
  else some 0

def signed (minus : Bool) (x : Float) : Float := if minus then -x else x

def double (minus : Bool) (n : Nat) (e : Int) (s : List Char) : Except Halt (Number × List Char) :=
  match scaled n e with
  | some x => .ok (.double (signed minus x), s)
  | none => .error (Problem.numberOutOfRange.here s)

def readExponent (minus : Bool) (n : Nat) (e : Int) (s : List Char) :
    Except Halt (Number × List Char) :=
  let (down, s) := match s with
    | '+' :: t => (false, t)
    | '-' :: t => (true, t)
    | t => (false, t)
  match s with
  | [] => .error (Problem.unfinishedValue.here [])
  | c :: _ =>
    if !isDigit c then .error (Problem.badNumber.ahead s)
    else
      let (x, t) := absorb maxExponent 0 s
      if !t.head?.any isDigit then double minus n (if down then e - x else e + x) t
      else if n ≠ 0 ∧ !down then .error (Problem.numberOutOfRange.ahead t)
      else .ok (.double (signed minus 0), t.dropWhile isDigit)

def readScale (minus : Bool) (n : Nat) (e : Int) (s : List Char) :
    Except Halt (Number × List Char) :=
  match s with
  | 'e' :: s => readExponent minus n e s
  | 'E' :: s => readExponent minus n e s
  | s => double minus n e s

def readFraction (minus : Bool) (n : Nat) (e : Int) (s : List Char) :
    Except Halt (Number × List Char) :=
  match s with
  | [] => .error (Problem.unfinishedValue.ahead [])
  | c :: _ =>
    if !isDigit c then .error (Problem.badNumber.ahead s)
    else
      let (n, t) := absorb maxSignificand n s
      readScale minus n (e - (s.length - t.length : Nat)) (t.dropWhile isDigit)

def readRest (minus : Bool) (n : Nat) (s : List Char) : Except Halt (Number × List Char) :=
  match s with
  | '.' :: s => readFraction minus n 0 s
  | 'e' :: s => readExponent minus n 0 s
  | 'E' :: s => readExponent minus n 0 s
  | s =>
    if !minus then .ok (.natural n, s)
    else if n = 0 ∨ 0x8000000000000000 < n then .ok (.double (-Float.ofNat n), s)
    else .ok (.negative n, s)

def readNumber (minus : Bool) (s : List Char) : Except Halt (Number × List Char) :=
  match s with
  | [] => .error (Problem.unfinishedValue.here [])
  | '0' :: t =>
    if t.head?.any isDigit then .error (Problem.badNumber.ahead t) else readRest minus 0 t
  | c :: _ =>
    if !isDigit c then .error (Problem.badNumber.ahead s)
    else
      let (n, t) := absorb maxSignificand 0 s
      if t.head?.any isDigit then
        let more := t.takeWhile isDigit
        match t.dropWhile isDigit with
        | '.' :: t => readFraction minus n more.length t
        | t => readScale minus n more.length t
      else readRest minus n t

def skipExponent (s : List Char) : Except Halt (List Char) :=
  let s := match s with
    | '+' :: t => t
    | '-' :: t => t
    | t => t
  if s.head?.any isDigit then .ok (s.dropWhile isDigit) else .error (Problem.badNumber.ahead s)

def skipScale (s : List Char) : Except Halt (List Char) :=
  match s with
  | 'e' :: s => skipExponent s
  | 'E' :: s => skipExponent s
  | s => .ok s

def skipNumber (s : List Char) : Except Halt (List Char) :=
  match s with
  | '0' :: t => if t.head?.any isDigit then .error (Problem.badNumber.ahead t) else rest t
  | s =>
    if s.head?.any isDigit then rest (s.dropWhile isDigit)
    else .error (Problem.badNumber.ahead s)
where
  rest (s : List Char) : Except Halt (List Char) :=
    match s with
    | '.' :: s =>
      if s.head?.any isDigit then skipScale (s.dropWhile isDigit)
      else .error (Problem.badNumber.ahead s)
    | s => skipScale s

end TarRecipe.Json
