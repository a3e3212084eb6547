import TarRecipe.Digest.Sha256
import TarRecipe.Error
import TarRecipe.Text.Hex

/-! Digests of archives and their text. -/

namespace TarRecipe

structure Digest where
  bytes : Bytes
  length_bytes : bytes.length = 32
  deriving DecidableEq

namespace Digest

def ofData (data : Bytes) : Digest := ⟨Sha256.hash data, Sha256.length_hash data⟩

def toHex (d : Digest) : String := String.ofList (d.bytes.flatMap fun b => Text.hexPair b.toNat)

def label : List Char := ['s', 'h', 'a', '2', '5', '6', ':']

def render (d : Digest) : String := String.ofList label ++ d.toHex

def summary (d : Digest) : String :=
  "Digest(" ++ String.ofList (d.toHex.toList.take 12) ++ ")"

def ofDigits? : List Char → Option Bytes
  | [] => some []
  | [_] => none
  | h :: l :: s =>
    match Text.hexValue? h, Text.hexValue? l, ofDigits? s with
    | some h, some l, some bs => some (UInt8.ofNat (16 * h + l) :: bs)
    | _, _, _ => none

def unlabelled (s : List Char) : List Char :=
  if label.isPrefixOf s then s.drop label.length else s

def ofHex? (text : String) : Option Digest :=
  match ofDigits? (unlabelled text.toList) with
  | some bs => if h : bs.length = 32 then some ⟨bs, h⟩ else none
  | none => none

def ofHex (text : String) : Except Error Digest :=
  match ofHex? text with
  | some d => .ok d
  | none => .error (.invalidDigest text)

end Digest

end TarRecipe
