import TarRecipe.Tree.Lookup

/-! A tree as a map from paths to what is bound there. -/

namespace TarRecipe

/-- An entry without what lies below it. -/
inductive Binding where
  | file (attrs : Attrs) (origin : Bytes)
  | dir (attrs : Attrs)
  deriving DecidableEq, Repr

namespace Entry

def binding : Entry → Binding
  | file a origin => .file a origin
  | dir a _ _ => .dir a

def find? : Entry → Path → Option Entry
  | e, [] => some e
  | file .., _ :: _ => none
  | dir _ _ cs, name :: path =>
    match cs.lookup name with
    | some e => e.find? path
    | none => none

@[simp] theorem find?_nil (e : Entry) : e.find? [] = some e := by
  unfold find?
  rfl

end Entry

namespace Dir

def find? (d : Dir) (path : Path) : Option Entry := d.toEntry.find? path

def at? (d : Dir) (path : Path) : Option Binding := (d.find? path).map Entry.binding

@[simp] theorem find?_nil (d : Dir) : d.find? [] = some d.toEntry := Entry.find?_nil _

theorem find?_cons (d : Dir) (name : String) (path : Path) :
    d.find? (name :: path) = (d.child name).bind (·.find? path) := by
  simp only [find?, toEntry, Entry.find?, child]
  cases d.children.lookup name <;> rfl

theorem find?_put (d : Dir) (name : String) (e : Entry) (n : String) (path : Path) :
    (d.put name e).find? (n :: path) = if n = name then e.find? path else d.find? (n :: path) := by
  simp only [find?_cons, child, put, Children.lookup_insert]
  split <;> rfl

theorem find?_drop (d : Dir) (name n : String) (path : Path) :
    (d.drop name).find? (n :: path) = if n = name then none else d.find? (n :: path) := by
  simp only [find?_cons, child, drop, Children.lookup_erase]
  split <;> rfl

theorem walk_eq_ok_iff (full : Path) (d d' : Dir) (path : Path) :
    d.walk full path = .ok d' ↔ d.find? path = some d'.toEntry := by
  induction path generalizing d with
  | nil => cases d; cases d'; simp [walk, toEntry]
  | cons name path ih =>
    rw [find?_cons, walk]
    cases d.child name with
    | none => simp
    | some e =>
      cases e with
      | file a origin => cases path <;> simp [Entry.find?, toEntry]
      | dir a listing cs => exact ih ⟨a, listing, cs⟩

end Dir

end TarRecipe
