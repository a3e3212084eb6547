import TarRecipe.Archive.Pack

/-! Reading archives back. -/

namespace TarRecipe.Archive

structure Item where
  path : Bytes
  type : UInt8
  mode : Nat
  userNumber : Nat
  groupNumber : Nat
  modified : Nat
  accessed : Nat
  changed : Nat
  user : Bytes
  group : Bytes
  body : Bytes
  deriving DecidableEq, Repr

/-! ## Fields -/

def slice (start width : Nat) (block : Bytes) : Bytes := (block.drop start).take width

def untilZero (s : Bytes) : Bytes := s.takeWhile (· != 0)

def octalDigit? (b : UInt8) : Option Nat :=
  if 0x30 ≤ b ∧ b ≤ 0x37 then some (b.toNat - 0x30) else none

def readOctal? (field : Bytes) : Option Nat := do
  let ds ← (field.takeWhile fun b => b != 0 && b != 0x20).mapM octalDigit?
  return ds.foldl (fun n d => n * 8 + d) 0

def readNumber? (field : Bytes) : Option Nat :=
  match field with
  | [] => none
  | b :: bs =>
    if b &&& 0x80 = 0 then readOctal? field
    else some (((b &&& 0x7F) :: bs).foldl (fun n b => n * 256 + b.toNat) 0)

/-! ## Headers -/

def isHeader (block : Bytes) : Bool :=
  block.length == blockSize && slice 257 8 block == magic &&
    readOctal? (slice 148 8 block) ==
      some (byteSum (block.take 148 ++ List.replicate 8 0x20 ++ block.drop 156))

def typeOf (block : Bytes) : UInt8 := block.getD 156 0

def sizeOf? (block : Bytes) : Option Nat := readNumber? (slice 124 12 block)

def Item.ofBlock? (longName : Option Bytes) (block body : Bytes) : Option Item := do
  return {
    path := longName.getD (untilZero (slice 0 100 block))
    type := typeOf block
    mode := ← readOctal? (slice 100 8 block)
    userNumber := ← readNumber? (slice 108 8 block)
    groupNumber := ← readNumber? (slice 116 8 block)
    modified := ← readNumber? (slice 136 12 block)
    accessed := ← readNumber? (slice 345 12 block)
    changed := ← readNumber? (slice 357 12 block)
    user := untilZero (slice 265 32 block)
    group := untilZero (slice 297 32 block)
    body }

/-! ## Archives -/

def paddedSize (size : Nat) : Nat := (size + (blockSize - 1)) / blockSize * blockSize

/-- Reads records, each of which takes at least one block. `longName` is what the record before said
about the path of the next entry. -/
def readItems : Nat → Option Bytes → Bytes → Option (List Item)
  | 0, _, _ => none
  | fuel + 1, longName, s =>
    let block := s.take blockSize
    let rest := s.drop blockSize
    if block = zeroBlock then
      if rest = zeroBlock ∧ longName = none then some [] else none
    else if isHeader block then do
      let size ← sizeOf? block
      if rest.length < paddedSize size then none
      else
        let body := rest.take size
        let rest := rest.drop (paddedSize size)
        if typeOf block = longNameType then readItems fuel (some (untilZero body)) rest
        else
          let item ← Item.ofBlock? longName block body
          let items ← readItems fuel none rest
          return item :: items
    else none

def read? (s : Bytes) : Option (List Item) := readItems (s.length / blockSize) none s

end TarRecipe.Archive
