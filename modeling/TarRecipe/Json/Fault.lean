import TarRecipe.Text.Utf8

/-! What can be wrong with a JSON text, and where. -/

namespace TarRecipe.Json

inductive Problem where
  | unfinishedList
  | unfinishedObject
  | unfinishedString
  | unfinishedValue
  | noColon
  | noCommaOrBracket
  | noCommaOrBrace
  | unknownWord
  | noValue
  | badEscape
  | badNumber
  | numberOutOfRange
  | controlCharacter
  | keyIsNoString
  | loneSurrogate
  | unfinishedSurrogate
  | commaAtEnd
  | charactersAtEnd
  | wrongType (found expected : String)
  | missingField (name : String)
  | duplicateField (name : String)
  | missingElement (index : Nat) (expected : String)
  deriving DecidableEq, Repr

def Problem.message : Problem → String
  | .unfinishedList => "EOF while parsing a list"
  | .unfinishedObject => "EOF while parsing an object"
  | .unfinishedString => "EOF while parsing a string"
  | .unfinishedValue => "EOF while parsing a value"
  | .noColon => "expected `:`"
  | .noCommaOrBracket => "expected `,` or `]`"
  | .noCommaOrBrace => "expected `,` or `\x7d`"
  | .unknownWord => "expected ident"
  | .noValue => "expected value"
  | .badEscape => "invalid escape"
  | .badNumber => "invalid number"
  | .numberOutOfRange => "number out of range"
  | .controlCharacter => "control character (\\u0000-\\u001F) found while parsing a string"
  | .keyIsNoString => "key must be a string"
  | .loneSurrogate => "lone leading surrogate in hex escape"
  | .unfinishedSurrogate => "unexpected end of hex escape"
  | .commaAtEnd => "trailing comma"
  | .charactersAtEnd => "trailing characters"
  | .wrongType found expected => "invalid type: " ++ found ++ ", expected " ++ expected
  | .missingField name => "missing field `" ++ name ++ "`"
  | .duplicateField name => "duplicate field `" ++ name ++ "`"
  | .missingElement index expected => s!"invalid length {index}, expected " ++ expected

structure Halt where
  problem : Problem
  unread : Nat
  deriving DecidableEq, Repr

def Problem.here (p : Problem) (s : List Char) : Halt := ⟨p, Utf8.size s⟩

def Problem.ahead (p : Problem) (s : List Char) : Halt := ⟨p, Utf8.size s - 1⟩

structure Fault where
  problem : Problem
  line : Nat
  column : Nat
  deriving DecidableEq, Repr

def placeAfter (bytes : Nat) (line column : Nat) : List Char → Nat × Nat
  | [] => (line, column)
  | c :: s =>
    if bytes ≤ c.utf8Size then
      if c = '\n' ∧ bytes = 1 then (line + 1, 0) else (line, column + bytes)
    else if c = '\n' then placeAfter (bytes - 1) (line + 1) 0 s
    else placeAfter (bytes - c.utf8Size) line (column + c.utf8Size) s

def Halt.locate (h : Halt) (text : List Char) : Fault :=
  let (line, column) := placeAfter (Utf8.size text - h.unread) 1 0 text
  ⟨h.problem, line, column⟩

def Fault.message (f : Fault) : String :=
  f.problem.message ++ s!" at line {f.line} column {f.column}"

end TarRecipe.Json
