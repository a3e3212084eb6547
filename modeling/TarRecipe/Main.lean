import TarRecipe.CommandLine.Run
import TarRecipe.Zstandard

/-! The program at work, on a picture of what a run may look at on the disk. -/

namespace TarRecipe.CommandLine

def pathOf (place : List String) : String := "/" ++ "/".intercalate place

def typeAt? (place : List String) : IO (Option IO.FS.FileType) := do
  let path := (← IO.currentDir) / pathOf place
  try return some (← path.symlinkMetadata).type catch _ => return none

def target? (place : List String) : IO (Option String) := do
  try return some (← IO.FS.realPath (pathOf place)).toString catch _ => return none

def addDirectory (disk : Disk) (place : List String) : Disk :=
  { disk with
    root := disk.root.change (fun n => some (n.getD .emptyDirectory)) (place.map textBytes) }

def addFile (disk : Disk) (place : List String) : IO Disk := do
  let data ← IO.FS.readBinFile (pathOf place)
  return disk.put (place.map textBytes) (.file 0o644 data.toList)

def addLink (disk : Disk) (place : List String) (target : String) : Disk :=
  disk.put (place.map textBytes) (.link (textBytes target))

def addSpecial (disk : Disk) (place : List String) : Disk :=
  disk.put (place.map textBytes)
    (if place = ["dev", "null"] then .nullDevice else .special (.error .noDevice))

partial def addTree (disk : Disk) (place : List String) : IO Disk := do
  match ← typeAt? place with
  | some .dir =>
    let mut disk := addDirectory disk place
    for e in ← ((← IO.currentDir) / pathOf place).readDir do
      disk ← addTree disk (place ++ [e.fileName])
    return disk
  | some .file => addFile disk place
  | some .symlink => return (← target? place).elim disk (addLink disk place)
  | some .other => return addSpecial disk place
  | none => return disk

partial def addPath (below : Bool) (disk : Disk) (place : List String) : List String → IO Disk
  | [] => if below then addTree disk place else return disk
  | name :: rest => do
    if name = "" ∨ name = "." then addPath below disk place rest
    else if name = ".." then addPath below disk place.dropLast rest
    else
      let next := place ++ [name]
      match ← typeAt? next with
      | some .dir => addPath below (addDirectory disk next) next rest
      | some .file => addFile disk next
      | some .symlink =>
        match ← target? next with
        | some target => addPath below (addLink disk next target) [] (target.splitOn "/" ++ rest)
        | none => return disk
      | some .other => return addSpecial disk next
      | none => return disk

def addPathname (below : Bool) (disk : Disk) (p : Pathname) : IO Disk := do
  let here : Pathname := textBytes (← IO.currentDir).toString
  addPath below disk [] ((Utf8.lossy (here.join p)).splitOn "/")

def takePicture (env : Option String) (args : List String) : IO (Disk × Bytes) := do
  let here := ((← IO.currentDir).toString.splitOn "/").filter (· ≠ "")
  let disk := addDirectory { Disk.empty with current := here.map textBytes } here
  let .ok (i, configFile) := plan env args | return (disk, [])
  let disk ← match configFile with
    | some file => addPathname false disk (textBytes file)
    | none => pure disk
  let .ok config := configOf disk configFile | return (disk, [])
  let recipe := recipeOf i.inner config
  let disk ← addPathname true disk (contextOf i.inner)
  let disk ← addPathname false disk recipe
  let disk ← addPathname false disk (outputOf i.inner)
  if recipe = Build.standard then return (disk, (← (← IO.getStdin).readBinToEnd).toList)
  else return (disk, [])

def saveFile (tag : String) (p : Pathname) (data : Bytes) : IO Unit := do
  let temporary := Utf8.lossy (Disk.temporaryPath tag p)
  IO.FS.writeBinFile temporary ⟨data.toArray⟩
  try IO.FS.rename temporary (Utf8.lossy p)
  catch e =>
    IO.FS.removeFile temporary
    throw e

def saveOutput (session : Session) (report : Report) (args : List String) : IO Unit := do
  let .ok (i, _) := plan session.env args | return
  if report.code = 0 ∧ i.verb = .build ∧ outputOf i.inner ≠ Build.standard then
    let .ok data := report.disk.read (outputOf i.inner) | return
    saveFile session.tag (outputOf i.inner) data

def perform (args : List String) : IO UInt32 := do
  let env ← IO.getEnv "TARBUILD_CONFIG"
  let (disk, input) ← takePicture env args
  let tag := (← IO.getRandomBytes 16).toList.flatMap fun b => Text.hexPair b.toNat
  let session : Session := ⟨Zstandard.encoder, disk, input, env, String.ofList tag⟩
  let report := run session args
  saveOutput session report args
  (← IO.getStdout).write ⟨report.output.toArray⟩
  IO.eprint report.errors
  return UInt32.ofNat report.code

end TarRecipe.CommandLine

def main (args : List String) : IO UInt32 := TarRecipe.CommandLine.perform args
