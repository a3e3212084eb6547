import TarRecipe.Archive.Pack
import TarRecipe.Config
import TarRecipe.Disk.Scan
import TarRecipe.Execute
import TarRecipe.Recipe.Lines
import TarRecipe.Tree.Pruning

/-! Builds: a recipe is run on the pruned tree of a context, and the outcome is packed. -/

namespace TarRecipe.Build

def standard : Pathname := [0x2D]

def readInput (disk : Disk) (input : Bytes) (p : Pathname) : Except Error Bytes :=
  if p = standard then .ok input else (disk.read p).mapError (.io p)

def assemble (disk : Disk) (input : Bytes) (context recipeFile : Pathname) (config : Config) :
    Except Error Dir := do
  let recipe ← Recipe.parse (← readInput disk input recipeFile)
  let _ ← recipe.check.result
  let source ← disk.scan context
  let pruned := source.applyIgnore disk.read config.ignoreFile
  let _ ← pruned.result
  recipe.check.commands.run pruned.tree

def encode (encoder : Compression.Encoder) (origins : Origins) (config : Config) (d : Dir) :
    Except Error Bytes := do
  config.compression.compress encoder config.zstdLevel (← Archive.ofTree origins d)

def archive (encoder : Compression.Encoder) (disk : Disk) (input : Bytes)
    (context recipeFile : Pathname) (config : Config) : Except Error Bytes := do
  encode encoder disk.read config (← assemble disk input context recipeFile config)

end TarRecipe.Build
