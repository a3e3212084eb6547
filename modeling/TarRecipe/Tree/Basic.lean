import TarRecipe.Text.Utf8
import TarRecipe.Tree.Children
import TarRecipe.Tree.Kind

/-! Trees of directories and files, and the listings that directories hold. -/

namespace TarRecipe

structure Attrs where
  perm : UInt32
  user : String
  group : String
  deriving DecidableEq, Repr

def Attrs.ofDir : Attrs := ⟨0o755, "root", "root"⟩
def Attrs.ofFile : Attrs := ⟨0o644, "root", "root"⟩

inductive Entry where
  | file (attrs : Attrs) (origin : Bytes)
  | dir (attrs : Attrs) (listing : Option (List String)) (children : List (String × Entry))

structure Dir where
  attrs : Attrs
  listing : Option (List String)
  children : List (String × Entry)

namespace Entry

def attrs : Entry → Attrs
  | file a _ => a
  | dir a _ _ => a

def kind : Entry → Kind
  | file .. => .file
  | dir .. => .directory

def isDir (e : Entry) : Bool := e.kind == .directory

end Entry

namespace Dir

def empty : Dir := ⟨.ofDir, some [], []⟩

def toEntry (d : Dir) : Entry := .dir d.attrs d.listing d.children

def child (d : Dir) (name : String) : Option Entry := d.children.lookup name

def touch (d : Dir) : Dir := { d with listing := none }

def put (d : Dir) (name : String) (e : Entry) : Dir :=
  { d with listing := none, children := Children.insert name e d.children }

def drop (d : Dir) (name : String) : Dir :=
  { d with listing := none, children := Children.erase name d.children }

end Dir

/-! ## Listings -/

mutual

/-- The paths below an entry in ascending order: the listing that it holds, or a new one. -/
def Entry.listed : Entry → List String
  | .file .. => []
  | .dir _ (some paths) _ => paths
  | .dir _ none cs => (gather cs).mergeSort
termination_by structural e => e

def gather : List (String × Entry) → List String
  | [] => []
  | (name, e) :: cs => name :: e.listed.map (fun path => name ++ "/" ++ path) ++ gather cs
termination_by structural cs => cs

end

mutual

def Entry.relist : Entry → Entry
  | .file a origin => .file a origin
  | .dir a _ cs => .dir a (some (gather (relistAll cs)).mergeSort) (relistAll cs)
termination_by structural e => e

def relistAll : List (String × Entry) → List (String × Entry)
  | [] => []
  | (name, e) :: cs => (name, e.relist) :: relistAll cs
termination_by structural cs => cs

end

def Dir.listed (d : Dir) : List String := d.toEntry.listed

def Dir.relist (d : Dir) : Dir :=
  let cs := relistAll d.children
  ⟨d.attrs, some (gather cs).mergeSort, cs⟩

/-! ## Attributes -/

mutual

def Entry.change (f : Attrs → Attrs) (all : Bool) : Entry → Entry
  | .file a origin => .file (f a) origin
  | .dir a listing cs => .dir (f a) listing (if all then changeEach f cs else cs)
termination_by structural e => e

def changeEach (f : Attrs → Attrs) : List (String × Entry) → List (String × Entry)
  | [] => []
  | (name, e) :: cs => (name, e.change f true) :: changeEach f cs
termination_by structural cs => cs

end

def Dir.change (f : Attrs → Attrs) (all : Bool) (d : Dir) : Dir :=
  ⟨f d.attrs, d.listing, if all then changeEach f d.children else d.children⟩

def Attrs.own (user group : String) (a : Attrs) : Attrs :=
  { a with
    user := if user = "" then a.user else user
    group := if group = "" then a.group else group }

end TarRecipe
