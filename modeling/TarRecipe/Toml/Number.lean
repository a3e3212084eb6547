import TarRecipe.Text.Hex
import TarRecipe.Toml.Value

/-! TOML numbers, dates and times. -/

namespace TarRecipe.Toml

def moreDigits (isDigit : Char → Bool) : List Char → List Char × List Char
  | [] => ([], [])
  | [c] => if isDigit c then ([c], []) else ([], [c])
  | c :: d :: s =>
    if isDigit c then
      let (ds, rest) := moreDigits isDigit (d :: s)
      (c :: ds, rest)
    else if c = '_' ∧ isDigit d then moreDigits isDigit (d :: s)
    else ([], c :: d :: s)

def readDigits (isDigit : Char → Bool) : List Char → Option (List Char × List Char)
  | c :: s => if isDigit c then some (moreDigits isDigit (c :: s)) else none
  | [] => none

def isDecimal (c : Char) : Bool := '0' ≤ c && c ≤ '9'

def isDigitOf (base : Nat) (c : Char) : Bool := (Text.hexValue? c).any (· < base)

def valueOf (base : Nat) (ds : List Char) : Nat :=
  ds.foldl (fun n c => n * base + (Text.hexValue? c).getD 0) 0

def readSign : List Char → Bool × List Char
  | '-' :: s => (true, s)
  | '+' :: s => (false, s)
  | s => (false, s)

def readWhole : List Char → Option (List Char × List Char)
  | '0' :: s => some (['0'], s)
  | s => readDigits isDecimal s

/-! ## Whole numbers -/

def maxInteger : Nat := 0x7FFFFFFFFFFFFFFF

def readBased (base : Nat) (s : List Char) : Option (Value × List Char) := do
  let (ds, s) ← readDigits (isDigitOf base) s
  let n := valueOf base ds
  if n ≤ maxInteger then some (.integer n, s) else none

def readInteger : List Char → Option (Value × List Char)
  | '0' :: 'x' :: s => readBased 16 s
  | '0' :: 'o' :: s => readBased 8 s
  | '0' :: 'b' :: s => readBased 2 s
  | s => do
    let (minus, s) := readSign s
    let (ds, s) ← readWhole s
    let n := valueOf 10 ds
    if minus then (if n ≤ maxInteger + 1 then some (.integer (-n), s) else none)
    else if n ≤ maxInteger then some (.integer n, s) else none

/-! ## Other numbers -/

def overflows (digits : List Char) (exponent : Int) : Bool :=
  let n := valueOf 10 digits
  let size := (Nat.toDigits 10 n).length + exponent
  if n = 0 ∨ size < 300 then false
  else if 320 < size then true
  else
    let limit := Nat.pow 2 1024 - Nat.pow 2 970
    decide (limit ≤ n * Nat.pow 10 exponent.toNat / Nat.pow 10 (-exponent).toNat)

def readExponent : List Char → Option (Int × List Char)
  | c :: s =>
    if c = 'e' ∨ c = 'E' then do
      let (minus, s) := readSign s
      let (ds, s) ← readDigits isDecimal s
      some (if minus then -valueOf 10 ds else valueOf 10 ds, s)
    else none
  | [] => none

def readDecimal (s : List Char) : Option (Value × List Char) := do
  let (minus, s) := readSign s
  let (whole, s) ← readWhole s
  let (digits, exponent, s) ← match s with
    | '.' :: s => do
      let (fraction, s) ← readDigits isDecimal s
      let (exponent, s) := (readExponent s).getD (0, s)
      some (whole ++ fraction, exponent - fraction.length, s)
    | s => do
      let (exponent, s) ← readExponent s
      some (whole, exponent, s)
  if !minus ∧ overflows digits exponent then none else some (.float, s)

def readSpecial (s : List Char) : Option (Value × List Char) :=
  match (readSign s).2 with
  | 'i' :: 'n' :: 'f' :: s => some (.float, s)
  | 'n' :: 'a' :: 'n' :: s => some (.float, s)
  | _ => none

/-! ## Dates -/

def readPair (low high : Nat) : List Char → Option (Nat × List Char)
  | a :: b :: s =>
    if isDecimal a ∧ isDecimal b ∧ low ≤ valueOf 10 [a, b] ∧ valueOf 10 [a, b] ≤ high then
      some (valueOf 10 [a, b], s)
    else none
  | _ => none

def expect (c : Char) : List Char → Option (List Char)
  | d :: s => if d = c then some s else none
  | [] => none

def daysIn (year month : Nat) : Nat :=
  if month = 2 then
    if year % 4 = 0 ∧ (year % 100 ≠ 0 ∨ year % 400 = 0) then 29 else 28
  else if month ∈ [4, 6, 9, 11] then 30
  else 31

def readDay (s : List Char) : Option (List Char) := do
  let (century, s) ← readPair 0 99 s
  let (year, s) ← readPair 0 99 s
  let (month, s) ← readPair 1 12 (← expect '-' s)
  let (day, s) ← readPair 1 31 (← expect '-' s)
  if day ≤ daysIn (century * 100 + year) month then some s else none

def readTime (s : List Char) : Option (List Char) := do
  let (_, s) ← readPair 0 23 s
  let (_, s) ← readPair 0 59 (← expect ':' s)
  let (_, s) ← readPair 0 60 (← expect ':' s)
  match s with
  | '.' :: c :: s => if isDecimal c then some (s.dropWhile isDecimal) else some ('.' :: c :: s)
  | s => some s

def readOffset (s : List Char) : Option (List Char) :=
  match s with
  | c :: s =>
    if c = 'Z' ∨ c = 'z' then some s
    else if c = '+' ∨ c = '-' then do
      let (_, s) ← readPair 0 23 s
      let (_, s) ← readPair 0 59 (← expect ':' s)
      some s
    else none
  | [] => none

def readDate (s : List Char) : Option (Value × List Char) :=
  match readDay s with
  | none => (readTime s).map (.date, ·)
  | some s =>
    match s with
    | c :: t =>
      if c = 'T' ∨ c = 't' ∨ c = ' ' then
        match readTime t with
        | some t => some (.date, (readOffset t).getD t)
        | none => some (.date, s)
      else some (.date, s)
    | [] => some (.date, [])

def readNumber (s : List Char) : Option (Value × List Char) :=
  readDate s <|> readDecimal s <|> readSpecial s <|> readInteger s

end TarRecipe.Toml
