import TarRecipe.Text.Utf8

/-! The headers of GNU tar archives: blocks of 512 bytes, numbers in octal. -/

namespace TarRecipe.Archive

def blockSize : Nat := 512

structure Header where
  name : Bytes
  mode : Nat
  size : Nat
  modified : Nat
  type : UInt8
  user : Bytes
  group : Bytes
  times : Option Nat
  deriving DecidableEq, Repr

def padTo (width : Nat) (s : Bytes) : Bytes := s ++ List.replicate (width - s.length) (0 : UInt8)

def digits (base : Nat) : Nat → Nat → List Nat
  | 0, _ => []
  | width + 1, n => digits base width (n / base) ++ [n % base]

def octalField (width n : Nat) : Bytes :=
  (digits 8 (width - 1) n).map (fun d => 0x30 + UInt8.ofNat d) ++ [0]

/-- A number that is too big for octal digits is written in bytes, with a mark in the first one. -/
def numberField (width n : Nat) : Bytes :=
  if n < Nat.pow 8 (width - 1) then octalField width n
  else
    match (digits 256 width n).map UInt8.ofNat with
    | [] => []
    | b :: bs => (b ||| 0x80) :: bs

def magic : Bytes := textBytes "ustar  \x00"

def byteSum (s : Bytes) : Nat := s.foldr (fun b n => b.toNat + n) 0

namespace Header

def fields (h : Header) (checksum : Bytes) : Bytes :=
  padTo 100 h.name ++ octalField 8 h.mode ++ numberField 8 0 ++ numberField 8 0 ++
    numberField 12 h.size ++ numberField 12 h.modified ++ checksum ++ [h.type] ++
    padTo 100 [] ++ magic ++ padTo 32 h.user ++ padTo 32 h.group ++
    padTo 16 [] ++
    padTo 167 (match h.times with
      | some t => numberField 12 t ++ numberField 12 t
      | none => [])

def checksum (h : Header) : Nat := byteSum (h.fields (List.replicate 8 0x20))

def bytes (h : Header) : Bytes := h.fields (octalField 8 h.checksum)

end Header

end TarRecipe.Archive
