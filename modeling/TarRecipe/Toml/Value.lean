import TarRecipe.Tree.Children

/-! TOML values, and tables as they are filled in. -/

namespace TarRecipe.Toml

/-- How a table came to be: by a header of its own, because a header or an entry names something
inside of it, or because a dotted key does. -/
inductive Begun where
  | byHeader
  | byInner
  | byDottedKey
  deriving DecidableEq, Repr

/-- Of numbers that are not whole, truth values and dates only the type is kept. -/
inductive Value where
  | text (s : String)
  | integer (n : Int)
  | float
  | boolean
  | date
  | array (items : List Value)
  | inlineTable (members : List (String × Value))
  | table (begun : Begun) (members : List (String × Value))
  | tables (earlier : List (List (String × Value))) (last : List (String × Value))

abbrev Members := List (String × Value)

namespace Members

def within (dotted : Bool) (edit : Begun → Members → Option Members) (begun : Begun) :
    List String → Members → Option Members
  | [], ms => edit begun ms
  | key :: path, ms =>
    match ms.lookup key with
    | none =>
      let new := if dotted then .byDottedKey else .byInner
      (within dotted edit new path []).map fun sub => Children.insert key (.table new sub) ms
    | some (.table b sub) =>
      if dotted ∧ b = .byHeader then none
      else (within dotted edit b path sub).map fun sub => Children.insert key (.table b sub) ms
    | some (.tables earlier last) =>
      (within dotted edit .byHeader path last).map fun last =>
        Children.insert key (.tables earlier last) ms
    | some _ => none

def addTo (dotted : Bool) (key : String) (value : Value) (begun : Begun) (ms : Members) :
    Option Members :=
  if (begun == .byDottedKey) != dotted then none
  else if (ms.lookup key).isSome then none
  else some (Children.insert key value ms)

def add (path : List String) (key : String) (value : Value) (begun : Begun) (ms : Members) :
    Option Members :=
  within (!path.isEmpty) (addTo (!path.isEmpty) key value) begun path ms

def openTable (path : List String) (key : String) (ms : Members) : Option Members :=
  within false
    (fun _ ms => match ms.lookup key with
      | none => some (Children.insert key (.table .byHeader []) ms)
      | some (.table .byInner sub) => some (Children.insert key (.table .byHeader sub) ms)
      | some _ => none)
    .byHeader path ms

def openNext (path : List String) (key : String) (ms : Members) : Option Members :=
  within false
    (fun _ ms => match ms.lookup key with
      | none => some (Children.insert key (.tables [] []) ms)
      | some (.tables earlier last) =>
        some (Children.insert key (.tables (earlier ++ [last]) []) ms)
      | some _ => none)
    .byHeader path ms

end Members

end TarRecipe.Toml
