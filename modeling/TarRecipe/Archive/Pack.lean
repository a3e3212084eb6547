import TarRecipe.Archive.Record
import TarRecipe.Tree.Origins

/-! The archive of a tree: a record for every entry below the root. -/

namespace TarRecipe.Archive

def record (path : String) (kind : Kind) (attrs : Attrs) (body : Bytes) : Except Error Record :=
  (Record.make path kind attrs body).mapError (.archive path)

mutual

def packEntry (origins : Origins) (path : String) : Entry → Except Error (List Record)
  | .file attrs origin => do
    let body ← origins.read origin
    return [← record path .file attrs body]
  | .dir attrs _ cs => do
    let r ← record (path ++ "/") .directory attrs []
    return r :: (← packAll origins path cs)
termination_by structural e => e

def packAll (origins : Origins) (above : String) :
    List (String × Entry) → Except Error (List Record)
  | [] => .ok []
  | (name, e) :: cs => do
    let first ← packEntry origins (Path.join above name) e
    return first ++ (← packAll origins above cs)
termination_by structural cs => cs

end

def zeroBlock : Bytes := List.replicate blockSize (0 : UInt8)

def render (records : List Record) : Bytes :=
  records.flatMap Record.bytes ++ zeroBlock ++ zeroBlock

def ofTree (origins : Origins) (d : Dir) : Except Error Bytes :=
  (packAll origins "" d.children).map render

end TarRecipe.Archive
