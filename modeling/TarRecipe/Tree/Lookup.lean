import TarRecipe.Error
import TarRecipe.Tree.Basic

/-! What a tree holds at a path. -/

namespace TarRecipe.Dir

def walk (full : Path) (d : Dir) : Path → Except Error Dir
  | [] => .ok d
  | name :: path =>
    match d.child name with
    | none => .error (.notFound full)
    | some (.file ..) => .error (.typeMismatch full .directory .file)
    | some (.dir a listing cs) => walk full ⟨a, listing, cs⟩ path

def entryAt (d : Dir) (path : Path) : Except Error Entry := do
  if path = [] then throw (.notFound path)
  match (← walk path d path.parent).child path.name with
  | some e => return e
  | none => throw (.notFound path)

def getEntry (d : Dir) (text : String) : Except Error Entry := d.entryAt (Path.parse text)

def getDir (d : Dir) (text : String) : Except Error Dir :=
  d.walk (Path.parse text) (Path.parse text)

def getFile (d : Dir) (text : String) : Except Error (Attrs × Bytes) := do
  match ← d.getEntry text with
  | .file a origin => return (a, origin)
  | .dir .. => throw (.typeMismatch (Path.parse text) .file .directory)

end TarRecipe.Dir
