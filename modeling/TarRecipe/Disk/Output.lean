import TarRecipe.Disk.Basic
import TarRecipe.Error

/-! Writing a file as a whole, by way of a temporary file beside the target. -/

namespace TarRecipe.Disk

/-- The name of the temporary file; `tag` tells it from all other names. -/
def temporaryName (tag : String) (p : Pathname) : Bytes :=
  textBytes ("." ++ Utf8.lossy p.fileName ++ "." ++ tag ++ ".tmp")

def temporaryPath (tag : String) (p : Pathname) : Pathname := p.parent.join (temporaryName tag p)

def endsInNoName (p : Pathname) : Bool :=
  match (p.segments.filter (· ≠ [])).getLast? with
  | some name => name == [Pathname.dot] || name == [Pathname.dot, Pathname.dot]
  | none => true

def stem (p : Pathname) : Pathname :=
  match ((p.reverse.dropWhile (· == Pathname.slash)).dropWhile (· != Pathname.slash)).reverse with
  | [] => if p.isAbsolute then [Pathname.slash] else [Pathname.dot]
  | q => q

def rename (disk : Disk) (source p : Pathname) : Except Fault Disk := do
  if p = [] then throw .missing
  -- faults on the way to the directory come before those of the last segment
  let _ ← disk.entries (stem p)
  if endsInNoName p then throw .busy
  if p.endsInSlash then throw .notDirectory
  let target ← match ← disk.find false p with
    | .node _ (.directory ..) => throw .isDirectory
    | .node place _ => pure place
    | .absent place => pure place
    | .absentDirectory => throw .notDirectory
  match ← disk.find false source with
  | .node place node => return (disk.erase place).put target node
  | .absent _ | .absentDirectory => throw .missing

def unlink (disk : Disk) (p : Pathname) : Except Fault Disk := do
  match ← disk.find false p with
  | .node _ (.directory ..) => throw .isDirectory
  | .node place _ => return disk.erase place
  | .absent _ | .absentDirectory => throw .missing

def checkOpens (disk : Disk) (p : Pathname) : Except Fault Unit := do
  match ← disk.find true p with
  | .node .. => return
  | .absent _ | .absentDirectory => throw .missing

structure Written where
  result : Except Error Unit
  disk : Disk

def replaceBy (disk : Disk) (temporary p : Pathname) (data : Bytes) : Written :=
  match disk.write temporary data with
  | .error fault => ⟨.error (.io temporary fault), disk⟩
  | .ok written =>
    match written.rename temporary p with
    | .error fault => ⟨.error (.io p fault), written⟩
    | .ok renamed => ⟨.ok (), renamed⟩

def replace (disk : Disk) (tag : String) (p : Pathname) (data : Bytes) : Written :=
  let temporary := temporaryPath tag p
  let after := disk.replaceBy temporary p data
  match after.result with
  -- the file has its place by now, and keeps it whatever becomes of its directory
  | .ok _ => { after with result := (after.disk.checkOpens p.parent).mapError (.io p.parent) }
  -- what cannot be taken away is left
  | .error _ => { after with disk := (after.disk.unlink temporary).toOption.getD after.disk }

end TarRecipe.Disk
