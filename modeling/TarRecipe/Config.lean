import TarRecipe.Compression
import TarRecipe.Disk.Basic
import TarRecipe.Error
import TarRecipe.Toml.Reader

/-! The settings of a build, and their file. -/

namespace TarRecipe

structure Config where
  recipeFile : String
  ignoreFile : String
  compression : Compression
  zstdLevel : Int32
  deriving DecidableEq, Repr

namespace Config

def default : Config := ⟨"Tarfile", ".tarignore", .none, 3⟩

/-! ## Reading -/

def isEmptyValue : Toml.Value → Bool
  | .array items => items.isEmpty
  | .inlineTable ms => ms.isEmpty
  | .table _ ms => ms.isEmpty
  | _ => false

def onlyMember : Toml.Members → Option Compression
  | [(key, v)] => if isEmptyValue v then Compression.ofName? key else none
  | _ => none

/-- A compression is given by its name, or by a table with an empty value under the name. -/
def compressionOf? : Toml.Value → Option Compression
  | .text s => Compression.ofName? s
  | .inlineTable ms => onlyMember ms
  | .table _ ms => onlyMember ms
  | _ => none

def textOf? : Toml.Value → Option String
  | .text s => some s
  | _ => none

def levelOf? : Toml.Value → Option Int32
  | .integer n =>
    if Int32.minValue.toInt ≤ n ∧ n ≤ Int32.maxValue.toInt then some (Int32.ofInt n) else none
  | _ => none

def setting {α : Type} (ms : Toml.Members) (name : String) (of? : Toml.Value → Option α)
    (default : α) : Option α :=
  match ms.lookup name with
  | some v => of? v
  | none => some default

def ofMembers? (ms : Toml.Members) : Option Config := do
  return {
    recipeFile := ← setting ms "tarfile" textOf? default.recipeFile
    ignoreFile := ← setting ms "ignore_file" textOf? default.ignoreFile
    compression := ← setting ms "compression" compressionOf? default.compression
    zstdLevel := ← setting ms "zstd_level" levelOf? default.zstdLevel }

def parse? (text : String) : Option Config := do ofMembers? (← Toml.read? text)

def load (disk : Disk) (p : Pathname) : Except Error Config := do
  let data ← (disk.read p).mapError (.io p)
  match Utf8.decode data with
  | .error _ => throw (.io p .notText)
  | .ok s =>
    match parse? (String.ofList s) with
    | some c => return c
    | none => throw .config

/-! ## Writing -/

def writeSetting (name : String) (value : List Char) : List Char :=
  name.toList ++ [' ', '=', ' '] ++ value ++ ['\n']

def writeInteger (n : Int) : List Char :=
  if n < 0 then '-' :: Nat.toDigits 10 n.natAbs else Nat.toDigits 10 n.natAbs

def render (c : Config) : String := String.ofList <|
  writeSetting "tarfile" (Toml.writeText c.recipeFile.toList) ++
  writeSetting "ignore_file" (Toml.writeText c.ignoreFile.toList) ++
  writeSetting "compression" (Toml.writeText c.compression.name.toList) ++
  writeSetting "zstd_level" (writeInteger c.zstdLevel.toInt)

def save (c : Config) (disk : Disk) (p : Pathname) : Except Error Disk :=
  (disk.write p (textBytes c.render)).mapError (.io p)

end Config

end TarRecipe
