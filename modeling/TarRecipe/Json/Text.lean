import TarRecipe.Json.Fault
import TarRecipe.Text.Hex

/-! JSON strings. -/

namespace TarRecipe.Json

def shortEscape? : Char → Option Char
  | '"' => some '"'
  | '\\' => some '\\'
  | '/' => some '/'
  | 'b' => some '\x08'
  | 'f' => some '\x0c'
  | 'n' => some '\n'
  | 'r' => some '\r'
  | 't' => some '\t'
  | _ => none

/-! ## Writing -/

def encodeChar (c : Char) : List Char :=
  if c = '"' ∨ c = '\\' then ['\\', c]
  else if c = '\x08' then ['\\', 'b']
  else if c = '\x0c' then ['\\', 'f']
  else if c = '\n' then ['\\', 'n']
  else if c = '\r' then ['\\', 'r']
  else if c = '\t' then ['\\', 't']
  else if c.toNat < 0x20 then
    ['\\', 'u', '0', '0'] ++ Text.hexPair c.toNat
  else [c]

def encode (s : List Char) : List Char := s.flatMap encodeChar

def writeString (s : String) : List Char := '"' :: encode s.toList ++ ['"']

/-! ## Reading -/

/-- Where the reader of a string stands: among plain characters, behind a backslash, inside four
hexadecimal digits of which `more` follow the next, or in front of one of the two characters that
introduce the second half of a surrogate pair. -/
inductive Place where
  | plain
  | escape
  | hex (more value : Nat) (high : Option Nat)
  | secondBackslash (high : Nat)
  | secondLetter (high : Nat)

def isHighSurrogate (n : Nat) : Bool := 0xD800 ≤ n && n ≤ 0xDBFF
def isLowSurrogate (n : Nat) : Bool := 0xDC00 ≤ n && n ≤ 0xDFFF

def unit (high : Option Nat) (n : Nat) : Except Problem (Char ⊕ Nat) :=
  match high with
  | none =>
    if isLowSurrogate n then .error .loneSurrogate
    else if isHighSurrogate n then .ok (.inr n)
    else .ok (.inl (Char.ofNat n))
  | some h =>
    if isLowSurrogate n then .ok (.inl (Char.ofNat (0x10000 + (h - 0xD800) * 0x400 + (n - 0xDC00))))
    else .error .loneSurrogate

def badDigit (more : Nat) (s : List Char) : Halt :=
  if Utf8.size s < more + 1 then Problem.unfinishedString.here []
  else ⟨.badEscape, Utf8.size s - (more + 1)⟩

def readFrom : Place → List Char → Except Halt (List Char × List Char)
  | _, [] => .error (Problem.unfinishedString.here [])
  | .plain, c :: s =>
    if c = '"' then .ok ([], s)
    else if c = '\\' then readFrom .escape s
    else if c.toNat < 0x20 then .error (Problem.controlCharacter.here s)
    else (readFrom .plain s).map fun (t, s) => (c :: t, s)
  | .escape, c :: s =>
    match shortEscape? c with
    | some d => (readFrom .plain s).map fun (t, s) => (d :: t, s)
    | none =>
      if c = 'u' then readFrom (.hex 3 0 none) s
      else .error (Problem.badEscape.ahead (c :: s))
  | .hex more value high, c :: s =>
    match Text.hexValue? c with
    | none => .error (badDigit more (c :: s))
    | some d =>
      match more with
      | more + 1 => readFrom (.hex more (value * 16 + d) high) s
      | 0 =>
        match unit high (value * 16 + d) with
        | .ok (.inl d) => (readFrom .plain s).map fun (t, s) => (d :: t, s)
        | .ok (.inr h) => readFrom (.secondBackslash h) s
        | .error p => .error (p.here s)
  | .secondBackslash high, c :: s =>
    if c = '\\' then readFrom (.secondLetter high) s
    else .error (Problem.unfinishedSurrogate.ahead (c :: s))
  | .secondLetter high, c :: s =>
    if c = 'u' then readFrom (.hex 3 0 (some high)) s
    else .error (Problem.unfinishedSurrogate.ahead (c :: s))

def readString (s : List Char) : Except Halt (String × List Char) :=
  (readFrom .plain s).map fun (t, s) => (String.ofList t, s)

def skipFrom : Place → List Char → Except Halt (List Char)
  | _, [] => .error (Problem.unfinishedString.here [])
  | .escape, c :: s =>
    if (shortEscape? c).isSome then skipFrom .plain s
    else if c = 'u' then skipFrom (.hex 3 0 none) s
    else .error (Problem.badEscape.ahead (c :: s))
  | .hex more value high, c :: s =>
    if (Text.hexValue? c).isNone then .error (badDigit more (c :: s))
    else
      match more with
      | more + 1 => skipFrom (.hex more value high) s
      | 0 => skipFrom .plain s
  | _, c :: s =>
    if c = '"' then .ok s
    else if c = '\\' then skipFrom .escape s
    else if c.toNat < 0x20 then .error (Problem.controlCharacter.here (c :: s))
    else skipFrom .plain s

def skipString (s : List Char) : Except Halt (List Char) := skipFrom .plain s

end TarRecipe.Json
