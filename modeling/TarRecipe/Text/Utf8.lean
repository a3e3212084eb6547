/-! UTF-8, read byte by byte. -/

namespace TarRecipe

abbrev Bytes := List UInt8

namespace Utf8

/-- Where a text stops being UTF-8. The length of the offending bytes is absent if they are a
character that the end of the text cuts short. -/
structure Fault where
  offset : Nat
  length : Option Nat
  deriving DecidableEq, Repr

/-- Where the reader stands: between characters, or inside one of which `seen` bytes are read,
`more` are owed after the next, and the next must lie between `low` and `high`. -/
inductive State where
  | between
  | inside (seen more : Nat) (low high : UInt8) (code : Nat)
  deriving DecidableEq, Repr

def first (b : UInt8) : Option (Char ⊕ State) :=
  let n := b.toNat
  if n < 0x80 then some (.inl (Char.ofNat n))
  else if n < 0xC2 then none
  else if n < 0xE0 then some (.inr (.inside 1 0 0x80 0xBF (n - 0xC0)))
  else if n < 0xF0 then
    some (.inr (.inside 1 1 (if n = 0xE0 then 0xA0 else 0x80) (if n = 0xED then 0x9F else 0xBF)
      (n - 0xE0)))
  else if n < 0xF5 then
    some (.inr (.inside 1 2 (if n = 0xF0 then 0x90 else 0x80) (if n = 0xF4 then 0x8F else 0xBF)
      (n - 0xF0)))
  else none

def longer (code : Nat) (b : UInt8) : Nat := code * 64 + (b.toNat - 0x80)

def decodeFrom : State → Nat → Bytes → Except Fault (List Char)
  | .between, _, [] => .ok []
  | .inside seen _ _ _ _, offset, [] => .error ⟨offset - seen, none⟩
  | .between, offset, b :: s =>
    match first b with
    | none => .error ⟨offset, some 1⟩
    | some (.inl c) => return c :: (← decodeFrom .between (offset + 1) s)
    | some (.inr state) => decodeFrom state (offset + 1) s
  | .inside seen more low high code, offset, b :: s =>
    if low ≤ b && b ≤ high then
      match more with
      | 0 => return Char.ofNat (longer code b) :: (← decodeFrom .between (offset + 1) s)
      | more + 1 => decodeFrom (.inside (seen + 1) more 0x80 0xBF (longer code b)) (offset + 1) s
    else .error ⟨offset - seen, some seen⟩

def decode (s : Bytes) : Except Fault (List Char) := decodeFrom .between 0 s

def replacement : Char := Char.ofNat 0xFFFD

def lossyFrom : State → Bytes → List Char
  | .between, [] => []
  | .inside .., [] => [replacement]
  | .between, b :: s =>
    match first b with
    | none => replacement :: lossyFrom .between s
    | some (.inl c) => c :: lossyFrom .between s
    | some (.inr state) => lossyFrom state s
  | .inside seen more low high code, b :: s =>
    if low ≤ b && b ≤ high then
      match more with
      | 0 => Char.ofNat (longer code b) :: lossyFrom .between s
      | more + 1 => lossyFrom (.inside (seen + 1) more 0x80 0xBF (longer code b)) s
    else
      replacement ::
        match first b with
        | none => replacement :: lossyFrom .between s
        | some (.inl c) => c :: lossyFrom .between s
        | some (.inr state) => lossyFrom state s

def lossy (s : Bytes) : String := String.ofList (lossyFrom .between s)

def encode (s : List Char) : Bytes := s.flatMap String.utf8EncodeChar

def size (s : List Char) : Nat := s.foldr (fun c n => c.utf8Size + n) 0

def Fault.message (f : Fault) : String :=
  match f.length with
  | some n => s!"invalid utf-8 sequence of {n} bytes from index {f.offset}"
  | none => s!"incomplete utf-8 byte sequence from index {f.offset}"

end Utf8

def textBytes (s : String) : Bytes := Utf8.encode s.toList

end TarRecipe
