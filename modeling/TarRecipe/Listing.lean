import TarRecipe.Tree.Lookup

/-! The listing that a user sees: a row for every entry of a tree. -/

namespace TarRecipe.Listing

structure Row where
  path : String
  kind : Kind
  attrs : Attrs
  deriving DecidableEq, Repr

def octal (perm : UInt32) : String :=
  let ds := Nat.toDigits 8 perm.toNat
  String.ofList (List.replicate (4 - ds.length) '0' ++ ds)

def Row.render (r : Row) : String :=
  octal r.attrs.perm ++ " " ++ r.attrs.user ++ ":" ++ r.attrs.group ++ " " ++ r.path ++
    match r.kind with
    | .directory => "/"
    | .file => ""

def rows (d : Dir) : Except Error (List Row) :=
  d.listed.mapM fun path => do
    let e ← d.getEntry path
    return ⟨path, e.kind, e.attrs⟩

end TarRecipe.Listing
