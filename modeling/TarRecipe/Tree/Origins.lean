import TarRecipe.Tree.Lookup

/-! Where the bytes of files are read. -/

namespace TarRecipe

abbrev Origins := Bytes → Except Disk.Fault Bytes

def Origins.read (origins : Origins) (place : Bytes) : Except Error Bytes :=
  (origins place).mapError (.io place)

def Dir.fileBytes (d : Dir) (origins : Origins) (text : String) : Except Error Bytes := do
  origins.read (← d.getFile text).2

end TarRecipe
