import TarRecipe.Archive.Header
import TarRecipe.Error
import TarRecipe.Tree.Basic

/-! The records of an archive: a header and a body, and a record before for a long path. -/

namespace TarRecipe.Archive

structure Record where
  longName : Option Bytes
  header : Header
  body : Bytes
  deriving DecidableEq, Repr

def padBlock (s : Bytes) : Bytes :=
  s ++ List.replicate ((blockSize - s.length % blockSize) % blockSize) (0 : UInt8)

def longNameType : UInt8 := 0x4C

def longNameHeader (length : Nat) : Header where
  name := textBytes "././@LongLink"
  mode := 0o644
  size := length + 1
  modified := 0
  type := longNameType
  user := []
  group := []
  times := none

namespace Record

def bytes (r : Record) : Bytes :=
  (match r.longName with
    | some path => (longNameHeader path.length).bytes ++ padBlock (path ++ [0])
    | none => []) ++
  r.header.bytes ++ padBlock r.body

end Record

/-! ## Filling in fields -/

def nameWidth : Nat := 100
def ownerWidth : Nat := 32

def store (width : Nat) (field : HeaderField) (stored value : Bytes) : Except HeaderFault Bytes :=
  if width < stored.length + value.length then .error ⟨field, false⟩
  else if 0 ∈ value then .error ⟨field, true⟩
  else .ok (stored ++ value)

def storeName (stored value : Bytes) : Except HeaderFault Bytes :=
  store nameWidth (.path (Utf8.lossy stored)) stored value

def slash : Bytes := [0x2F]

def storeNames (stored : Bytes) : List Bytes → Except HeaderFault Bytes
  | [] => .ok stored
  | name :: names => do
    let stored ← if stored = [] then .ok stored else storeName stored slash
    storeNames (← storeName stored name) names

def storePath (path : Bytes) : Except HeaderFault Bytes := do
  let names := (path.splitOn 0x2F).filter fun name => name ≠ [] ∧ name ≠ [0x2E]
  let stored ← storeNames [] names
  if path.getLast? = some 0x2F then storeName stored slash else .ok stored

def cut (room : Nat) : List Char → List Char
  | [] => []
  | c :: s => if c.utf8Size ≤ room then c :: cut (room - c.utf8Size) s else []

def placePath (path : String) : Except HeaderFault (Option Bytes × Bytes) :=
  match storePath (textBytes path) with
  | .ok name => .ok (none, name)
  | .error fault =>
    -- a path that is short enough cannot be helped by a record of its own
    if (textBytes path).length < nameWidth then .error fault
    else (storePath (Utf8.encode (cut nameWidth path.toList))).map fun name =>
      (some (textBytes path), name)

/-- The time that stands in every record: the first of February 1988. -/
def fixedTime : Nat := 570672000

def typeByte : Kind → UInt8
  | .file => 0x30
  | .directory => 0x35

def modeOf (kind : Kind) (perm : UInt32) : UInt32 :=
  perm ||| match kind with
    | .file => 0o100000
    | .directory => 0o040000

def Record.make (path : String) (kind : Kind) (attrs : Attrs) (body : Bytes) :
    Except HeaderFault Record := do
  -- a fault of the owner hides one of the path
  let user ← store ownerWidth .user [] (textBytes attrs.user)
  let group ← store ownerWidth (.group attrs.user) [] (textBytes attrs.group)
  let (longName, name) ← placePath path
  return {
    longName
    header := {
      name
      mode := (modeOf kind attrs.perm).toNat
      size := body.length
      modified := fixedTime
      type := typeByte kind
      user
      group
      times := some fixedTime }
    body }

end TarRecipe.Archive
