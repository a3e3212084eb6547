import TarRecipe.Build
import TarRecipe.CommandLine.Help
import TarRecipe.Digest.Basic
import TarRecipe.Disk.Output
import TarRecipe.Listing

/-! The program as a function of the disk, the input, the environment and the arguments. -/

namespace TarRecipe.CommandLine

structure Session where
  encoder : Compression.Encoder
  disk : Disk
  input : Bytes
  env : Option String
  tag : String

structure Report where
  code : Nat
  output : Bytes
  /-- What is said about errors; nothing is fixed about misuse. -/
  errors : String
  disk : Disk

def configOf (disk : Disk) : Option String → Except Error Config
  | some file => Config.load disk (textBytes file)
  | none => .ok .default

def contextOf (o : Options) : Pathname := textBytes (o.context.getD ".")

def recipeOf (o : Options) (config : Config) : Pathname :=
  match o.recipe with
  | some file => textBytes file
  | none => (contextOf o).join (textBytes config.recipeFile)

def outputOf (o : Options) : Pathname := textBytes (o.output.getD "-")

structure Printed where
  output : Bytes
  errors : String

structure Performed where
  result : Except Error Printed
  disk : Disk

def runBuild (s : Session) (o : Options) (config : Config) : Performed :=
  let config := if o.zstd then { config with compression := .zstd } else config
  match Build.archive s.encoder s.disk s.input (contextOf o) (recipeOf o config) config with
  | .error e => ⟨.error e, s.disk⟩
  | .ok data =>
    let words := if o.digest then (Digest.ofData data).render ++ "\n" else ""
    if outputOf o = Build.standard then ⟨.ok ⟨data, words⟩, s.disk⟩
    else
      let written := s.disk.replace s.tag (outputOf o) data
      ⟨written.result.map fun _ => ⟨[], words⟩, written.disk⟩

def runList (s : Session) (o : Options) (config : Config) : Except Error Printed := do
  let tree ← Build.assemble s.disk s.input (contextOf o) (recipeOf o config) config
  let rows ← Listing.rows tree
  return ⟨rows.flatMap fun r => textBytes (r.render ++ "\n"), ""⟩

def runVerb (s : Session) (i : Invocation) (configFile : Option String) : Performed :=
  match configOf s.disk configFile with
  | .error e => ⟨.error e, s.disk⟩
  | .ok config =>
    match i.verb with
    | .build => runBuild s i.inner config
    | .list => ⟨runList s i.inner config, s.disk⟩

def stopped (s : Session) : Stop → Report
  | .misuse => ⟨2, [], "error: invalid arguments\n", s.disk⟩
  | .help verb => ⟨0, textBytes (helpText s.env verb), "", s.disk⟩
  | .version => ⟨0, textBytes versionText, "", s.disk⟩

def plan (env : Option String) (args : List String) : Except Stop (Invocation × Option String) := do
  let i ← readProgram none .none args
  return (i, ← i.configFile env)

def run (s : Session) (args : List String) : Report :=
  match plan s.env args with
  | .error stop => stopped s stop
  | .ok (i, configFile) =>
    let performed := runVerb s i configFile
    match performed.result with
    | .ok printed => ⟨0, printed.output, printed.errors, performed.disk⟩
    | .error e => ⟨1, [], "error: " ++ e.message ++ "\n", performed.disk⟩

end TarRecipe.CommandLine
