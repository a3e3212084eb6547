import TarRecipe.Disk.Basic
import TarRecipe.Tree.Edit

/-! The tree of a directory on disk, without links and special files. -/

namespace TarRecipe.Disk

def permBits (perm : UInt32) : UInt32 := perm &&& 0o777

inductive ScanItem where
  | file (path : Pathname) (perm : UInt32)
  | directory (path : Pathname) (perm : UInt32)

mutual

def Node.items (path : Pathname) : Node → List ScanItem
  | .file perm _ => [.file path perm]
  | .directory perm entries => .directory path perm :: itemsBelow path entries
  | .link _ | .special _ => []
termination_by structural node => node

def itemsBelow (path : Pathname) : List (Bytes × Node) → List ScanItem
  | [] => []
  | (name, node) :: entries => node.items (path.join name) ++ itemsBelow path entries
termination_by structural entries => entries

end

def addItem (root : Pathname) (item : ScanItem) (d : Dir) : Outcome Unit :=
  match item with
  | .file path perm =>
    (d.addFile (Utf8.lossy path) (root.join path) fun a => { a with perm := permBits perm }).void
  | .directory path perm =>
    (d.mkdirAll (Utf8.lossy path) fun a => { a with perm := permBits perm }).void

def scan (disk : Disk) (p : Pathname) : Except Error Dir := do
  let root ← match p.absolute? (Pathname.ofNames true disk.current) with
    | some root => pure root
    | none => throw (.io p .emptyPath)
  match disk.find true root with
  | .ok (.node _ (.directory _ entries)) =>
    let o := Outcome.forEach (addItem root) (itemsBelow [] entries) .empty
    o.result.map fun _ => o.tree.relist
  | .ok (.node ..) => throw (.scanOfFile root)
  | .ok (.absent _) | .ok .absentDirectory => throw (.io root .missing)
  | .error fault => throw (.io root fault)

end TarRecipe.Disk
