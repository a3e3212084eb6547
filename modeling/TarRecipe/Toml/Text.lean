import TarRecipe.Text.Hex

/-! TOML strings, in the plainest form that can hold a text. -/

namespace TarRecipe.Toml

def isTextChar (c : Char) : Bool := c == '\t' || (0x20 ≤ c.toNat && c.toNat != 0x7F)

def isBlank (c : Char) : Bool := c == ' ' || c == '\t'

def dropNewline : List Char → List Char
  | '\n' :: s => s
  | '\r' :: '\n' :: s => s
  | s => s

/-! ## Reading -/

/-- Where the reader of a string with escapes stands: among plain characters, behind a backslash,
inside hexadecimal digits of which `more` follow the next, behind a backslash at the end of a line,
or in the margin of the line that is joined. -/
inductive Place where
  | plain
  | escape
  | hex (more value : Nat)
  | lineEnd
  | margin
  deriving DecidableEq

def shortEscape? : Char → Option Char
  | 'b' => some '\x08'
  | 'f' => some '\x0c'
  | 'n' => some '\n'
  | 'r' => some '\r'
  | 't' => some '\t'
  | '"' => some '"'
  | '\\' => some '\\'
  | _ => none

def scalar? (n : Nat) : Option Char := if n.isValidChar then some (Char.ofNat n) else none

def closing (quote : Char) : List Char → List Char × List Char
  | a :: b :: s =>
    if a = quote ∧ b = quote then ([a, b], s)
    else if a = quote then ([a], b :: s)
    else ([], a :: b :: s)
  | [a] => if a = quote then ([a], []) else ([], [a])
  | [] => ([], [])

def push (c : Char) (r : Option (List Char × List Char)) : Option (List Char × List Char) :=
  r.map fun (t, s) => (c :: t, s)

def readEscaped (lines : Bool) : Place → List Char → Option (List Char × List Char)
  | _, [] => none
  | .escape, c :: s =>
    match shortEscape? c with
    | some d => push d (readEscaped lines .plain s)
    | none =>
      if c = 'u' then readEscaped lines (.hex 3 0) s
      else if c = 'U' then readEscaped lines (.hex 7 0) s
      else if !lines then none
      else if c = '\n' then readEscaped lines .margin s
      else if isBlank c ∨ (c = '\r' ∧ s.head? = some '\n') then readEscaped lines .lineEnd s
      else none
  | .hex more value, c :: s =>
    match Text.hexValue? c with
    | none => none
    | some d =>
      match more with
      | more + 1 => readEscaped lines (.hex more (value * 16 + d)) s
      | 0 =>
        match scalar? (value * 16 + d) with
        | some d => push d (readEscaped lines .plain s)
        | none => none
  | .lineEnd, c :: s =>
    if c = '\n' then readEscaped lines .margin s
    else if isBlank c ∨ (c = '\r' ∧ s.head? = some '\n') then readEscaped lines .lineEnd s
    else none
  | place, c :: s =>
    if place = .margin ∧ (isBlank c ∨ c = '\n') then readEscaped lines .margin s
    else if c = '\\' then readEscaped lines .escape s
    else if c = '"' then
      if !lines then some ([], s)
      else if ['"', '"'].isPrefixOf s then some (closing '"' (s.drop 2))
      else push c (readEscaped lines .plain s)
    else if lines ∧ c = '\r' ∧ s.head? = some '\n' then readEscaped lines place s
    else if isTextChar c ∨ (lines ∧ c = '\n') then push c (readEscaped lines .plain s)
    else none

def readLiteral (lines : Bool) : List Char → Option (List Char × List Char)
  | [] => none
  | c :: s =>
    if c = '\'' then
      if !lines then some ([], s)
      else if ['\'', '\''].isPrefixOf s then some (closing '\'' (s.drop 2))
      else push c (readLiteral lines s)
    else if lines ∧ c = '\r' ∧ s.head? = some '\n' then readLiteral lines s
    else if isTextChar c ∨ (lines ∧ c = '\n') then push c (readLiteral lines s)
    else none

def readLine : List Char → Option (List Char × List Char)
  | '"' :: s => readEscaped false .plain s
  | '\'' :: s => readLiteral false s
  | _ => none

def readText : List Char → Option (List Char × List Char)
  | '"' :: '"' :: '"' :: s => readEscaped true .plain (dropNewline s)
  | '\'' :: '\'' :: '\'' :: s => readLiteral true (dropNewline s)
  | s => readLine s

/-! ## Writing -/

structure Form where
  escaped : Bool
  lines : Bool
  deriving DecidableEq, Repr

def longestRun (c : Char) (run : Nat) : List Char → Nat
  | [] => run
  | d :: s => if d = c then longestRun c (run + 1) s else max run (longestRun c 0 s)

def isControl (c : Char) : Bool := (c.toNat < 0x20 && c != '\n') || c.toNat == 0x7F

def formOf (s : List Char) : Form :=
  let control := s.any isControl
  let quotes := longestRun '"' 0 s
  let apostrophes := longestRun '\'' 0 s
  if !control ∧ '\\' ∉ s ∧ quotes = 0 ∧ '\n' ∉ s then ⟨true, false⟩
  else if !control ∧ apostrophes = 0 ∧ '\n' ∉ s then ⟨false, false⟩
  else if !control ∧ '\\' ∉ s ∧ quotes ≤ 2 then ⟨true, true⟩
  else if !control ∧ apostrophes ≤ 2 then ⟨false, true⟩
  else ⟨true, decide ('\n' ∈ s)⟩

def escape? (lines : Bool) (c : Char) : Option (List Char) :=
  if c = '\x08' then some ['\\', 'b']
  else if c = '\t' then some ['\\', 't']
  else if c = '\n' then if lines then none else some ['\\', 'n']
  else if c = '\x0c' then some ['\\', 'f']
  else if c = '\r' then some ['\\', 'r']
  else if c = '\\' then some ['\\', '\\']
  else if isControl c then
    some (['\\', 'u', '0', '0'] ++ (Text.hexPair c.toNat).map Char.toUpper)
  else none

/-- Writes the inside of a string, of which the last `run` characters are quotes. On several lines
every third quote in a row is escaped, on one line each. -/
def writeEscaped (lines : Bool) (run : Nat) : List Char → List Char
  | [] => []
  | c :: s =>
    if c = '"' then
      if (if lines then 2 else 0) ≤ run then '\\' :: '"' :: writeEscaped lines 0 s
      else c :: writeEscaped lines (run + 1) s
    else
      match escape? lines c with
      | some e => e ++ writeEscaped lines 0 s
      | none => c :: writeEscaped lines 0 s

def Form.delimiter (f : Form) : List Char :=
  List.replicate (if f.lines then 3 else 1) (if f.escaped then '"' else '\'')

def Form.write (f : Form) (s : List Char) : List Char :=
  f.delimiter ++ (if f.lines ∧ '\n' ∈ s then ['\n'] else []) ++
    (if f.escaped then writeEscaped f.lines 0 s else s) ++ f.delimiter

def writeText (s : List Char) : List Char := (formOf s).write s

end TarRecipe.Toml
