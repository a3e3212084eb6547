import TarRecipe.Text.Utf8

/-! Paths on disk, which are bytes and need not be text. -/

namespace TarRecipe

abbrev Pathname := Bytes

namespace Pathname

def slash : UInt8 := 0x2F
def dot : UInt8 := 0x2E

def isAbsolute (p : Pathname) : Bool := p.head? == some slash

def endsInSlash (p : Pathname) : Bool := p.getLast? == some slash

def join (base name : Pathname) : Pathname :=
  if name.isAbsolute ∨ base = [] then name
  else if base.endsInSlash then base ++ name
  else base ++ slash :: name

def segments (p : Pathname) : List Bytes := p.splitOn slash

def names (p : Pathname) : List Bytes :=
  match p.segments with
  | [] => []
  | first :: rest =>
    (if first = [] then [] else [first]) ++ rest.filter fun s => s ≠ [] ∧ s ≠ [dot]

def ofNames (absolute : Bool) (names : List Bytes) : Pathname :=
  (if absolute then [slash] else []) ++ [slash].intercalate names

def isSilent (segment : Bytes) : Bool := segment = [] ∨ segment = [dot]

def dropSilent (segments : List Bytes) : List Bytes := (segments.reverse.dropWhile isSilent).reverse

def parent (p : Pathname) : Pathname :=
  let whole := dropSilent p.segments
  let above := dropSilent whole.dropLast
  if above ≠ [] then [slash].intercalate above
  else if whole ≠ [] ∧ p.isAbsolute then [slash] else [dot]

def fileName (p : Pathname) : Bytes :=
  match p.names.getLast? with
  | some name => if name = [dot] ∨ name = [dot, dot] then [] else name
  | none => []

/-- The path from the root, read from the directory `base`. Dots are dropped, but not the way back
up, which may cross a link. A slash at the end is kept, and so are just two at the start. -/
def absolute? (p base : Pathname) : Option Pathname :=
  if p = [] then none
  else
    let names := p.names.filter (· ≠ [dot])
    let start :=
      if p.isAbsolute then
        if p.take 2 = [slash, slash] ∧ p[2]? ≠ some slash then [slash, slash] else [slash]
      else base
    let whole := names.foldl join start
    some (if p.endsInSlash then join whole [] else whole)

end Pathname

end TarRecipe
