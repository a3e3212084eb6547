import TarRecipe.Tree.Edit
import TarRecipe.Tree.Origins

/-! Pruning by ignore files. -/

namespace TarRecipe

mutual

/-- The number of directories on the longest way down. -/
def Entry.height : Entry → Nat
  | .file .. => 0
  | .dir _ _ cs => heightOf cs + 1
termination_by structural e => e

def heightOf : List (String × Entry) → Nat
  | [] => 0
  | (_, e) :: cs => max e.height (heightOf cs)
termination_by structural cs => cs

end

namespace Dir

def sweepOne (rules : Ignore.Rules) (path : String) (d : Dir) : Outcome Unit :=
  match d.getEntry path with
  | .ok e => if rules.ignores path e.isDir then (d.remove path).void else ⟨.ok (), d⟩
  -- gone already, with a directory above
  | .error (.notFound _) => ⟨.ok (), d⟩
  | .error e => ⟨.error e, d⟩

def sweep (rules : Ignore.Rules) : List String → Dir → Outcome Unit :=
  Outcome.forEach (sweepOne rules)

def ownRules (origins : Origins) (name : String) (d : Dir) : Except Error (Option Ignore.Rules) :=
  match d.child name with
  | some (.file _ origin) => do
    let rules ← (Ignore.Rules.ofBytes (← origins.read origin)).mapError fun fault =>
      Error.pattern (.ignoreLine fault)
    return some rules
  | _ => .ok none

def pruneEach (prune : Dir → Outcome Unit) :
    List (String × Entry) → Except Error Unit × List (String × Entry)
  | [] => (.ok (), [])
  | (name, .file a origin) :: cs =>
    let (result, cs) := pruneEach prune cs
    (result, (name, .file a origin) :: cs)
  | (name, .dir a listing below) :: cs =>
    let o := prune ⟨a, listing, below⟩
    match o.result with
    | .error e => (.error e, (name, o.tree.toEntry) :: cs)
    | .ok _ =>
      let (result, cs) := pruneEach prune cs
      (result, (name, o.tree.toEntry) :: cs)

def pruneTo (origins : Origins) (name : String) : Nat → Dir → Outcome Unit
  | 0, d => ⟨.ok (), d⟩
  | depth + 1, d =>
    match d.ownRules origins name with
    | .error e => ⟨.error e, d⟩
    | .ok none => ⟨.ok (), d⟩
    | .ok (some rules) =>
      (sweep rules (if rules.isEmpty then [] else d.listed) d).andThen fun _ d =>
        let (result, cs) := pruneEach (pruneTo origins name depth) d.children
        ⟨result, { d with listing := none, children := cs }⟩

def applyIgnore (origins : Origins) (name : String) (d : Dir) : Outcome Unit :=
  (pruneTo origins name d.toEntry.height d).andThen fun _ d => ⟨.ok (), d.relist⟩

end Dir

end TarRecipe
