import TarRecipe.Tree.Lookup

/-! Operations that change a tree. What is done before an error stays done. -/

namespace TarRecipe

structure Outcome (α : Type) where
  result : Except Error α
  tree : Dir

namespace Outcome

variable {α β : Type}

def andThen (o : Outcome α) (f : α → Dir → Outcome β) : Outcome β :=
  match o.result with
  | .ok x => f x o.tree
  | .error e => ⟨.error e, o.tree⟩

def void (o : Outcome α) : Outcome Unit := ⟨o.result.map fun _ => (), o.tree⟩

def forEach (f : α → Dir → Outcome Unit) : List α → Dir → Outcome Unit
  | [], d => ⟨.ok (), d⟩
  | x :: xs, d => (f x d).andThen fun _ d => forEach f xs d

end Outcome

namespace Dir

variable {α : Type}

/-- Does `edit` in the directory at a path below `d`, where directories that are missing are made
if asked. Messages show the path `full`. -/
def within (make : Bool) (full : Path) (edit : Dir → Outcome α) : Path → Dir → Outcome α
  | [], d => edit d.touch
  | name :: path, d =>
    match d.child name with
    | some (.file ..) => ⟨.error (.typeMismatch full .directory .file), d.touch⟩
    | some (.dir a listing cs) =>
      let o := within make full edit path ⟨a, listing, cs⟩
      ⟨o.result, d.put name o.tree.toEntry⟩
    | none =>
      if make then
        let o := within make full edit path .empty
        ⟨o.result, d.put name o.tree.toEntry⟩
      else ⟨.error (.notFound full), d.touch⟩

def modifyDir (text : String) (f : Dir → Dir) (d : Dir) : Outcome Dir :=
  let path := Path.parse text
  within true path (fun d => ⟨.ok (f d), f d⟩) path d

def setAttrs (f : Attrs → Attrs) (d : Dir) : Dir := { d with attrs := f d.attrs }

def mkdirAll (text : String) (f : Attrs → Attrs) : Dir → Outcome Dir := modifyDir text (setAttrs f)

def create (path : Path) (e : Entry) (d : Dir) : Outcome Unit :=
  match d.child path.name with
  | some _ => ⟨.error (.alreadyExists path), d⟩
  | none => ⟨.ok (), d.put path.name e⟩

def mkdir (text : String) (f : Attrs → Attrs) (d : Dir) : Outcome Dir :=
  let path := Path.parse text
  if path = [] then ⟨.error (.alreadyExists path), d⟩
  else
    let new := empty.setAttrs f
    (within false path (create path new.toEntry) path.parent d).andThen fun _ d => ⟨.ok new, d⟩

def addFile (text : String) (origin : Bytes) (f : Attrs → Attrs) (d : Dir) : Outcome Attrs :=
  let path := Path.parse text
  if path = [] then ⟨.error (.alreadyExists path), d⟩
  else
    let attrs := f .ofFile
    (within true path.parent (create path (.file attrs origin)) path.parent d).andThen
      fun _ d => ⟨.ok attrs, d⟩

def remove (text : String) (d : Dir) : Outcome Entry :=
  let path := Path.parse text
  if path = [] then ⟨.error (.notFound path), d⟩
  else within false path
    (fun d => match d.child path.name with
      | some e => ⟨.ok e, d.drop path.name⟩
      | none => ⟨.error (.notFound path), d⟩)
    path.parent d

def update (text : String) (f : Entry → Entry) (d : Dir) : Outcome Unit :=
  let path := Path.parse text
  if path = [] then ⟨.error (.notFound path), d⟩
  else within false path
    (fun d => match d.child path.name with
      | some e => ⟨.ok (), d.put path.name (f e)⟩
      | none => ⟨.error (.notFound path), d⟩)
    path.parent d

/-! ## Merging -/

mutual

/-- Puts an entry into a directory. A file takes the place of a file, the children of a directory
join those of a directory, which keeps its attributes, and a file does not meet a directory. -/
def merge (path : Path) (name : String) : Entry → Dir → Outcome Unit
  | .file a origin, d =>
    match d.child name with
    | some (.dir ..) => ⟨.error (.typeMismatch path .directory .file), d⟩
    | _ => ⟨.ok (), d.put name (.file a origin)⟩
  | .dir a listing cs, d =>
    match d.child name with
    | none => ⟨.ok (), d.put name (.dir a listing cs)⟩
    | some (.file ..) => ⟨.error (.typeMismatch path .file .directory), d⟩
    | some (.dir a' _ cs') =>
      let o := mergeAll path cs ⟨a', none, cs'⟩
      ⟨o.result, d.put name o.tree.toEntry⟩
termination_by structural e => e

def mergeAll (path : Path) : List (String × Entry) → Dir → Outcome Unit
  | [], d => ⟨.ok (), d⟩
  | (name, e) :: cs, d => (merge (path ++ [name]) name e d).andThen fun _ d => mergeAll path cs d
termination_by structural cs => cs

end

def add (text : String) (e : Entry) (d : Dir) : Outcome Unit :=
  let path := Path.parse text
  if path = [] then
    match e with
    | .dir _ _ cs => mergeAll [] cs d.touch
    | .file .. => ⟨.error (.typeMismatch [] .directory .file), d⟩
  else within true path.parent (merge path path.name e) path.parent d

end Dir

end TarRecipe
