import TarRecipe.Ignore.Token
import TarRecipe.Text.Blank

/-! Ignore files: of the rules that match a path the last decides. -/

namespace TarRecipe.Ignore

structure Rule where
  tokens : List Token
  keeps : Bool
  onlyDirs : Bool

structure LineFault where
  line : String
  pattern : String
  fault : PatternFault
  deriving DecidableEq, Repr

namespace Rule

def trimmed (line : List Char) : List Char :=
  if ['\\', ' '].isSuffixOf line then line else Text.trimEnd Text.isBlank line

def ofStart : List Char → Bool × Bool × List Char
  | '\\' :: '!' :: s => (false, false, '!' :: s)
  | '\\' :: '#' :: s => (false, false, '#' :: s)
  | '!' :: '/' :: s => (true, true, s)
  | '!' :: s => (true, false, s)
  | '/' :: s => (false, true, s)
  | s => (false, false, s)

def ofEnd (s : List Char) : Bool × List Char :=
  match s.reverse with
  | '/' :: '\\' :: t => (true, t.reverse)
  | '/' :: t => (true, t.reverse)
  | _ => (false, s)

/-- A pattern without a slash holds at every depth, unless it is tied. A pattern that ends in `/**`
matches what is below, and not the directory itself. -/
def widened (tied : Bool) (s : List Char) : List Char :=
  let s := if tied ∨ '/' ∈ s ∨ s = ['*', '*'] then s else '*' :: '*' :: '/' :: s
  if ['/', '*', '*'].isSuffixOf s then s ++ ['/', '*'] else s

def read (line : List Char) : Except PatternFault (Option Rule) :=
  if line.head? = some '#' ∨ trimmed line = [] then .ok none
  else
    let (keeps, tied, s) := ofStart (trimmed line)
    let (onlyDirs, s) := ofEnd s
    (Ignore.tokens (widened tied s)).map fun ts => some ⟨ts, keeps, onlyDirs⟩

def applies (r : Rule) (path : Bytes) (isDir : Bool) : Bool :=
  (!r.onlyDirs || isDir) && isMatch r.tokens path

end Rule

abbrev Rules := List Rule

namespace Rules

def ofLine (line : String) : Except LineFault (Option Rule) :=
  let line := Text.trimEnd (· == '\r') line.toList
  (Rule.read line).mapError fun f =>
    ⟨String.ofList line, String.ofList (Rule.trimmed line), f⟩

def ofLines (lines : List String) : Except LineFault Rules :=
  (lines.mapM ofLine).map (·.filterMap id)

def ofBytes (data : Bytes) : Except LineFault Rules :=
  ofLines (((Utf8.lossy data).toList.splitOn '\n').map String.ofList)

def subject (path : List Char) : List Char :=
  let s := match path with
    | '.' :: '/' :: s => s
    | s => s
  match s with
  | '/' :: t => t
  | s => s

def ignores (rules : Rules) (path : String) (isDir : Bool) : Bool :=
  match rules.reverse.find? (·.applies (Utf8.encode (subject path.toList)) isDir) with
  | some r => !r.keeps
  | none => false

end Rules

def LineFault.message (f : LineFault) : String :=
  "error parsing glob '" ++ f.pattern ++ "': " ++ f.fault.message

end TarRecipe.Ignore
