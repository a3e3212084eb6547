import TarRecipe.Toml.Number
import TarRecipe.Toml.Text

/-! Reading TOML documents. -/

namespace TarRecipe.Toml

/-! ## Blanks and comments -/

def skipBlanks (s : List Char) : List Char := s.dropWhile isBlank

def skipComment (s : List Char) : List Char :=
  match s with
  | '#' :: s => s.dropWhile isTextChar
  | s => s

def readLineEnd (s : List Char) : Option (List Char) :=
  match skipComment (skipBlanks s) with
  | [] => some []
  | '\n' :: s => some s
  | '\r' :: '\n' :: s => some s
  | _ => none

def skipLayout (inComment : Bool) : List Char → List Char
  | [] => []
  | c :: s =>
    if c = '\n' then skipLayout false s
    else if c = '\r' ∧ s.head? = some '\n' then skipLayout inComment s
    else if inComment then (if isTextChar c then skipLayout true s else c :: s)
    else if isBlank c then skipLayout false s
    else if c = '#' then skipLayout true s
    else c :: s

/-! ## Keys -/

/-- Tables are nested less deeply than this, and a dotted key has fewer parts. -/
def maxDepth : Nat := 80

def isBareKeyChar (c : Char) : Bool :=
  ('a' ≤ c && c ≤ 'z') || ('A' ≤ c && c ≤ 'Z') || ('0' ≤ c && c ≤ '9') || c == '-' || c == '_'

def readSimpleKey (s : List Char) : Option (String × List Char) :=
  match s with
  | [] => none
  | c :: _ =>
    if c = '"' ∨ c = '\'' then (readLine s).map fun (t, s) => (String.ofList t, s)
    else if isBareKeyChar c then
      some (String.ofList (s.takeWhile isBareKeyChar), s.dropWhile isBareKeyChar)
    else none

def readKeyParts : Nat → List Char → Option (List String × List Char)
  | 0, _ => none
  | parts + 1, s => do
    let (key, s) ← readSimpleKey (skipBlanks s)
    match skipBlanks s with
    | '.' :: s => do
      let (keys, s) ← readKeyParts parts s
      some (key :: keys, s)
    | s => some ([key], s)

def readKey (s : List Char) : Option ((List String × String) × List Char) := do
  let (keys, s) ← readKeyParts (maxDepth - 1) s
  some ((keys.dropLast, keys.getLastD ""), s)

/-! ## Values -/

def readWord (word : List Char) (v : Value) (s : List Char) : Option (Value × List Char) :=
  if word.isPrefixOf s then some (v, s.drop word.length) else none

def readItems (value : List Char → Option (Value × List Char)) :
    Nat → List Char → Option (List Value × List Char)
  | 0, _ => none
  | fuel + 1, s =>
    match skipLayout false s with
    | ']' :: s => some ([], s)
    | s => do
      let (v, s) ← value s
      match skipLayout false s with
      | ']' :: s => some ([v], s)
      | ',' :: s => do
        let (vs, s) ← readItems value fuel s
        some (v :: vs, s)
      | _ => none

def readMembers (value : List Char → Option (Value × List Char)) :
    Nat → Members → List Char → Option (Members × List Char)
  | 0, _, _ => none
  | fuel + 1, ms, s => do
    let ((path, key), s) ← readKey s
    let (v, s) ← value (skipBlanks (← expect '=' s))
    let ms ← ms.add path key v .byHeader
    match skipBlanks s with
    | '}' :: s => some (ms, s)
    | ',' :: s => readMembers value fuel ms s
    | _ => none

def readValue : Nat → List Char → Option (Value × List Char)
  | depth, s =>
    match s with
    | [] => none
    | c :: t =>
      if c = '"' ∨ c = '\'' then (readText s).map fun (t, s) => (.text (String.ofList t), s)
      else if c = '[' then
        match depth with
        | 0 => none
        | depth + 1 => (readItems (readValue depth) (t.length + 1) t).map fun (vs, s) =>
          (.array vs, s)
      else if c = '{' then
        match depth with
        | 0 => none
        | depth + 1 =>
          match skipBlanks t with
          | '}' :: s => some (.inlineTable [], s)
          | s => (readMembers (readValue depth) s.length [] s).map fun (ms, s) =>
            (.inlineTable ms, s)
      else if c = 't' then readWord ['t', 'r', 'u', 'e'] .boolean s
      else if c = 'f' then readWord ['f', 'a', 'l', 's', 'e'] .boolean s
      else readNumber s
termination_by structural depth => depth

/-! ## Documents -/

structure State where
  root : Members
  header : List String

def State.add (state : State) (path : List String) (key : String) (value : Value) : Option State :=
  (Members.within false (fun begun ms => ms.add path key value begun) .byHeader state.header
    state.root).map fun root => { state with root }

def readStatement (state : State) (s : List Char) : Option (State × List Char) :=
  match s with
  | '[' :: '[' :: s => do
    let ((path, key), s) ← readKey s
    let s ← readLineEnd (← expect ']' (← expect ']' s))
    let root ← state.root.openNext path key
    some (⟨root, path ++ [key]⟩, s)
  | '[' :: s => do
    let ((path, key), s) ← readKey s
    let s ← readLineEnd (← expect ']' s)
    let root ← state.root.openTable path key
    some (⟨root, path ++ [key]⟩, s)
  | s =>
    match readLineEnd s with
    | some s => some (state, s)
    | none => do
      let ((path, key), s) ← readKey s
      let (v, s) ← readValue (maxDepth - 1) (skipBlanks (← expect '=' s))
      let s ← readLineEnd s
      some (← state.add path key v, s)

def readStatements : Nat → State → List Char → Option Members
  | 0, _, _ => none
  | fuel + 1, state, s =>
    match skipBlanks s with
    | [] => some state.root
    | s => do
      let (state, s) ← readStatement state s
      readStatements fuel state s

def read? (text : String) : Option Members :=
  let s := match text.toList with
    | '\ufeff' :: s => s
    | s => s
  readStatements (s.length + 1) ⟨[], []⟩ s

end TarRecipe.Toml
