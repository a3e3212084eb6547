/-! Paths inside a tree: the names on the way down from the root. -/

namespace TarRecipe

abbrev Path := List String

namespace Path

def step (above : List String) (segment : String) : List String :=
  if segment = "" ∨ segment = "." then above
  else if segment = ".." then above.tail
  else segment :: above

def segments (text : String) : List String :=
  (text.toList.splitOn '/').map String.ofList

def parse (text : String) : Path :=
  ((segments text).foldl step []).reverse

def render (p : Path) : String := "/".intercalate p

def shown (p : Path) : String := "/" ++ p.render

def parent (p : Path) : Path := p.dropLast

def name (p : Path) : String := p.getLastD ""

/-- `name` below `base`, as text; slashes at the end of `base` count as one. -/
def join (base name : String) : String :=
  match (base.toList.reverse.dropWhile (· == '/')).reverse with
  | [] => name
  | b => String.ofList b ++ "/" ++ name

def endsInSlash (text : String) : Bool := text.toList.getLast? == some '/'

@[simp] theorem parse_empty : parse "" = [] := by
  simp [parse, segments, step]

end Path

end TarRecipe
