import TarRecipe.Glob
import TarRecipe.Recipe.Validation
import TarRecipe.Tree.Edit

/-! What directives do to a tree. -/

namespace TarRecipe

namespace Glob

def compileOne (pattern : String) : Except Error Glob :=
  (compile pattern).mapError fun fault => .pattern (.glob pattern fault)

def compileAll : List String → Except Error (List Glob) := List.mapM compileOne

def matchPath (pattern path : String) : Except Error Bool :=
  (compileOne pattern).map (·.isMatch path)

def select (globs : List Glob) (paths : List String) : List String :=
  paths.filter fun path => globs.any (·.isMatch path)

end Glob

namespace Directive

def relist (d : Dir) : Outcome Unit := ⟨.ok (), d.relist⟩

def runMkdir (args : List String) (dest : Dir) : Outcome Unit :=
  if args = [] then ⟨.error (.usage .mkdir), dest⟩
  else (Outcome.forEach (fun path d => (d.mkdirAll path id).void) args dest).andThen
    fun _ d => relist d

def target (dest path : String) : String :=
  if Path.endsInSlash dest then Path.join dest (Path.parse path).name else dest

def asDirectory (dest : String) (paths : List String) : String :=
  if 1 < paths.length ∧ !Path.endsInSlash dest then dest ++ "/" else dest

def copyOne (source : Dir) (dest path : String) (d : Dir) : Outcome Unit :=
  match source.getEntry path with
  | .error e => ⟨.error e, d⟩
  | .ok e => d.add (target dest path) e

def runCopy (source : Dir) (args : List String) (d : Dir) : Outcome Unit :=
  match args.dropLast, args.getLast? with
  | pattern :: patterns, some dest =>
    match Glob.compileAll (pattern :: patterns) with
    | .error e => ⟨.error e, d⟩
    | .ok globs =>
      match Glob.select globs source.listed with
      -- the tree is not listed anew, so old listings in it stay as they are
      | [] => ⟨.ok (), d⟩
      | paths => (Outcome.forEach (copyOne source (asDirectory dest paths)) paths d).andThen
          fun _ d => relist d
  | _, _ => ⟨.error (.usage .copy), d⟩

def changeMatches (f : Attrs → Attrs) (all : Bool) (patterns : List String) (d : Dir) :
    Outcome Unit :=
  match Glob.compileAll patterns with
  | .error e => ⟨.error e, d⟩
  | .ok globs =>
    (Outcome.forEach (fun path => Dir.update path (Entry.change f all))
      (Glob.select globs d.listed) d).andThen fun _ d => relist d

def runChmod (args : List String) (d : Dir) : Outcome Unit :=
  match recursion args with
  | (all, mode :: pattern :: patterns) =>
    match ModeChange.parse? mode with
    | none => ⟨.error (.usage .chmod), d⟩
    | some change =>
      changeMatches (fun a => { a with perm := change.apply a.perm }) all (pattern :: patterns) d
  | _ => ⟨.error (.usage .chmod), d⟩

def owner (text : String) : String × String :=
  let s := text.toList
  (String.ofList (s.takeWhile (· != ':')), String.ofList (s.dropWhile (· != ':')).tail)

def runChown (args : List String) (d : Dir) : Outcome Unit :=
  match recursion args with
  | (all, text :: pattern :: patterns) =>
    let (user, group) := owner text
    changeMatches (Attrs.own user group) all (pattern :: patterns) d
  | _ => ⟨.error (.usage .chown), d⟩

def run (source : Dir) : Directive → List String → Dir → Outcome Unit
  | .mkdir => runMkdir
  | .copy => runCopy source
  | .chmod => runChmod
  | .chown => runChown

end Directive

namespace Recipe

def run (r : Recipe) (source : Dir) : Except Error Dir := do
  let steps ← r.check.steps
  let o := Outcome.forEach (fun (d, args) => d.run source args) steps .empty
  o.result.map fun _ => o.tree

end Recipe

end TarRecipe
