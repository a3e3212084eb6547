import TarRecipe.Error

/-! The compression of finished archives. -/

namespace TarRecipe

inductive Compression where
  | none
  | zstd
  deriving DecidableEq, Repr

namespace Compression

def name : Compression → String
  | none => "none"
  | zstd => "zstd"

def ofName? (text : String) : Option Compression :=
  if text = "none" then some none
  else if text = "zstd" then some zstd
  else Option.none

def parse? (text : String) : Option Compression := ofName? (text.map Char.toLower)

/-- A library's encoder: what comes of a level and the data, or the words for its failure. -/
abbrev Encoder := Int32 → Bytes → Except String Bytes

def compress (encoder : Encoder) (c : Compression) (level : Int32) (data : Bytes) :
    Except Error Bytes :=
  match c with
  | none => .ok data
  | zstd => (encoder level data).mapError fun words => .io (textBytes "<zstd>") (.reported words)

end Compression

end TarRecipe
