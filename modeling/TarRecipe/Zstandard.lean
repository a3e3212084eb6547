import TarRecipe.Compression

/-! Zstandard frames of raw blocks and of blocks of one repeated byte. -/

namespace TarRecipe.Zstandard

def magic : Bytes := [0x28, 0xB5, 0x2F, 0xFD]

def descriptor : UInt8 := 0xE0

def littleEndian : Nat → Nat → Bytes
  | 0, _ => []
  | width + 1, n => UInt8.ofNat (n % 256) :: littleEndian width (n / 256)

def ofLittleEndian (s : Bytes) : Nat := s.foldr (fun b n => b.toNat + 256 * n) 0

def maxBlock : Nat := 128 * 1024

def constant? : Bytes → Option UInt8
  | [] => none
  | b :: s => if s.all (· == b) then some b else none

def block (last : Bool) (s : Bytes) : Bytes :=
  let flag := if last then 1 else 0
  match constant? s with
  | some b => littleEndian 3 (s.length * 8 + 2 + flag) ++ [b]
  | none => littleEndian 3 (s.length * 8 + flag) ++ s

def blocks : Nat → Bytes → Bytes
  | 0, s => block true s
  | n + 1, s => block false (s.take maxBlock) ++ blocks n (s.drop maxBlock)

def encode (s : Bytes) : Bytes :=
  magic ++ descriptor :: littleEndian 8 s.length ++ blocks ((s.length - 1) / maxBlock) s

/-- Data is stored alike at every level, and always. -/
def encoder : Compression.Encoder := fun _ s => .ok (encode s)

def readBlocks : Nat → Bytes → Option Bytes
  | 0, _ => none
  | fuel + 1, s =>
    if s.length < 3 then none
    else
      let head := ofLittleEndian (s.take 3)
      let length := head / 8
      let s := s.drop 3
      let content : Option (Bytes × Bytes) :=
        -- bytes as they are, or one byte that is repeated; other kinds of blocks are never written
        match head / 2 % 4, s with
        | 0, s => if s.length < length then none else some (s.take length, s.drop length)
        | 1, b :: s => some (List.replicate length b, s)
        | _, _ => none
      match content with
      | none => none
      | some (x, s) =>
        if head % 2 = 1 then (if s = [] then some x else none)
        else (readBlocks fuel s).map (x ++ ·)

def decode? (s : Bytes) : Option Bytes :=
  if (magic ++ [descriptor]).isPrefixOf s ∧ 13 ≤ s.length then
    match readBlocks s.length (s.drop 13) with
    | some x => if x.length = ofLittleEndian ((s.drop 5).take 8) then some x else none
    | none => none
  else none

end TarRecipe.Zstandard
