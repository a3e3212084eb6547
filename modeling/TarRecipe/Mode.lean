/-! Permission bits and the changes that `CHMOD` makes to them. -/

namespace TarRecipe

/-- A change of permission bits: those that `mask` selects take their value from `mode`. -/
structure ModeChange where
  mask : UInt32
  mode : UInt32
  deriving DecidableEq, Repr

namespace ModeChange

def allBits : UInt32 := 0xFFFFFFFF

def apply (change : ModeChange) (perm : UInt32) : UInt32 :=
  (change.mask &&& change.mode) ||| (perm &&& ~~~change.mask)

def octalDigit? (c : Char) : Option UInt32 :=
  if '0' ≤ c ∧ c ≤ '7' then some (UInt32.ofNat (c.toNat - '0'.toNat)) else none

def who? : Char → Option UInt32
  | 'a' => some allBits
  | 'u' => some 0o700
  | 'g' => some 0o070
  | 'w' => some 0o007
  | _ => none

def permission? : Char → Option UInt32
  | 'r' => some 0o444
  | 'w' => some 0o222
  | 'x' => some 0o111
  | _ => none

def isOperator (c : Char) : Bool := c == '=' || c == '+' || c == '-'

def union? (bits? : Char → Option UInt32) : List Char → Option UInt32
  | [] => none
  | letters => (letters.mapM bits?).map fun bits => bits.foldl (· ||| ·) 0

def symbolic? (text : List Char) : Option ModeChange :=
  match text.dropWhile (!isOperator ·) with
  | [] => none
  | operator :: letters =>
    match union? who? (text.takeWhile (!isOperator ·)), union? permission? letters with
    | some who, some bits =>
      some <| match operator with
        | '=' => ⟨who, bits⟩
        | '+' => ⟨who &&& bits, allBits⟩
        | _ => ⟨who &&& bits, 0⟩
    | _, _ => none

def absolute? : List Char → Option ModeChange
  | ['0', a, b, c] =>
    match octalDigit? a, octalDigit? b, octalDigit? c with
    | some a, some b, some c => some ⟨allBits, a * 64 + b * 8 + c⟩
    | _, _, _ => none
  | _ => none

def parse? (text : String) : Option ModeChange :=
  absolute? text.toList <|> symbolic? text.toList

end ModeChange

end TarRecipe
