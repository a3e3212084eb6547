/-! The two kinds of entries of a tree. -/

namespace TarRecipe

inductive Kind where
  | file
  | directory
  deriving DecidableEq, Repr

def Kind.name : Kind → String
  | .file => "file"
  | .directory => "directory"

end TarRecipe
