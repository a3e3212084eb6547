import TarRecipe.Disk.Fault
import TarRecipe.Disk.Pathname
import TarRecipe.Tree.Children

/-! A disk, and the directory that relative paths start from. -/

namespace TarRecipe.Disk

inductive Node where
  | file (perm : UInt32) (data : Bytes)
  | directory (perm : UInt32) (entries : List (Bytes × Node))
  | link (target : Pathname)
  /-- A pipe, a socket or a device, with what comes out of it when it is opened. -/
  | special (opened : Except Fault Bytes)

abbrev Place := List Bytes

namespace Node

def emptyDirectory : Node := .directory 0o755 []

def nullDevice : Node := .special (.ok [])

def at? : Node → Place → Option Node
  | node, [] => some node
  | .directory _ entries, name :: place =>
    match entries.lookup name with
    | some node => node.at? place
    | none => none
  | _, _ :: _ => none

def change (f : Option Node → Option Node) : Place → Node → Node
  | [], node => (f (some node)).getD node
  | [name], .directory perm entries =>
    match f (entries.lookup name) with
    | some node => .directory perm (Children.insert name node entries)
    | none => .directory perm (Children.erase name entries)
  | name :: place, .directory perm entries =>
    let below := (entries.lookup name).getD emptyDirectory
    .directory perm (Children.insert name (change f place below) entries)
  | _, node => node

end Node

end TarRecipe.Disk

namespace TarRecipe

structure Disk where
  root : Disk.Node
  current : Disk.Place

namespace Disk

def empty : Disk := ⟨.emptyDirectory, []⟩

def put (disk : Disk) (place : Place) (node : Node) : Disk :=
  { disk with root := disk.root.change (fun _ => some node) place }

def erase (disk : Disk) (place : Place) : Disk :=
  { disk with root := disk.root.change (fun _ => none) place }

/-! ## Finding -/

/-- What a path leads to: a node, or the place of a name that a directory does not have. A slash
behind such a name asks for a directory there. -/
inductive Found where
  | node (place : Place) (node : Node)
  | absent (place : Place)
  | absentDirectory

def maxName : Nat := 255
def maxPath : Nat := 4095
def maxLinks : Nat := 40

/-- Follows the segments of a path from a directory, whose place is given from the inside out. A
link at the end is followed if asked, or if the path goes on behind it. -/
def follow (root : Node) (last : Bool) (links : Nat) (above : Place) (segments : List Bytes) :
    Except Fault Found :=
  match segments with
  | [] =>
    match root.at? above.reverse with
    | some node => .ok (.node above.reverse node)
    | none => .error .missing
  | name :: rest =>
    if name = [] ∨ name = [Pathname.dot] then follow root last links above rest
    else if name = [Pathname.dot, Pathname.dot] then follow root last links above.tail rest
    else if maxName < name.length then .error .nameTooLong
    else
      match root.at? (name :: above).reverse with
      | some (.directory ..) => follow root last links (name :: above) rest
      | some (.link target) =>
        if rest = [] ∧ !last then .ok (.node (name :: above).reverse (.link target))
        else
          match links with
          | 0 => .error .tooManyLinks
          | links + 1 =>
            let start := if target.isAbsolute then [] else above
            follow root last links start (target.segments ++ rest)
      | some node =>
        if rest = [] then .ok (.node (name :: above).reverse node) else .error .notDirectory
      -- a name that is missing may only be the last one, for then it could be given to a new entry
      | none =>
        if rest = [] then .ok (.absent (name :: above).reverse)
        else if rest.all (· = []) then .ok .absentDirectory
        else .error .missing
termination_by (links, segments.length)

def find (disk : Disk) (last : Bool) (p : Pathname) : Except Fault Found :=
  if 0 ∈ p then .error .zeroInPath
  else if p = [] then .error .missing
  else if maxPath < p.length then .error .nameTooLong
  else
    let start := if p.isAbsolute then [] else disk.current.reverse
    follow disk.root last maxLinks start p.segments

/-! ## Reading and writing -/

def read (disk : Disk) (p : Pathname) : Except Fault Bytes := do
  match ← disk.find true p with
  | .node _ (.file _ data) => return data
  | .node _ (.directory ..) => throw .isDirectory
  | .node _ (.link _) => throw .tooManyLinks
  | .node _ (.special opened) => opened
  | .absent _ | .absentDirectory => throw .missing

def write (disk : Disk) (p : Pathname) (data : Bytes) : Except Fault Disk := do
  match ← disk.find true p with
  | .node place (.file perm _) => return disk.put place (.file perm data)
  | .node _ (.directory ..) => throw .isDirectory
  | .node _ (.link _) => throw .tooManyLinks
  | .node _ (.special opened) => opened.map fun _ => disk
  | .absent place => return disk.put place (.file 0o644 data)
  | .absentDirectory => throw .isDirectory

def entries (disk : Disk) (p : Pathname) : Except Fault (List (Bytes × Node)) := do
  match ← disk.find true p with
  | .node _ (.directory _ entries) => return entries
  | .node .. => throw .notDirectory
  | .absent _ | .absentDirectory => throw .missing

end Disk

end TarRecipe
