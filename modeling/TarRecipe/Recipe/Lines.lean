import TarRecipe.Error
import TarRecipe.Recipe.Document
import TarRecipe.Text.Blank

/-! Build files as lines. -/

namespace TarRecipe.Lines

/-! ## The text as a whole -/

def stripComments (inComment : Bool) : List Char → List Char
  | [] => []
  | c :: s =>
    if c = '\n' then c :: stripComments false s
    else if inComment then stripComments true s
    else if c = '#' then stripComments true s
    else c :: stripComments false s

def joinContinued : List Char → List Char
  | '\\' :: '\n' :: s => joinContinued s
  | c :: s => c :: joinContinued s
  | [] => []

def joinBracketed (inBrackets : Bool) : List Char → List Char
  | [] => []
  | c :: s =>
    if inBrackets then
      if c = '\n' then joinBracketed true s else c :: joinBracketed (c != ']') s
    else c :: joinBracketed (c == '[') s

def logicalLines (text : List Char) : List (List Char) :=
  let joined := joinBracketed false (joinContinued (stripComments false text))
  ((joined.splitOn '\n').map (Text.trim Text.isAsciiBlank)).filter (· ≠ [])

/-! ## One line -/

def isName (s : List Char) : Bool := !s.isEmpty && s.all fun c => 'A' ≤ c && c ≤ 'Z'

def plainArgs (s : List Char) : List String :=
  (((s.splitOn ' ').map (Text.trim Text.isAsciiBlank)).filter (· ≠ [])).map String.ofList

def readLine (line : List Char) : Except SpecFault Command :=
  let name := line.takeWhile (· != ' ')
  let args := Text.trim Text.isAsciiBlank (line.dropWhile (· != ' '))
  if !isName name || args.isEmpty then .error (.line (String.ofList line))
  else if args.head? = some '[' then
    match Json.readAll Document.readArgs args with
    | .ok args => .ok ⟨String.ofList name, args⟩
    | .error fault => .error (.arguments (String.ofList line) fault)
  else .ok ⟨String.ofList name, plainArgs args⟩

def read (text : List Char) : Except SpecFault Recipe := (logicalLines text).mapM readLine

end TarRecipe.Lines

namespace TarRecipe.Recipe

def parse (data : Bytes) : Except Error Recipe :=
  match Utf8.decode data with
  | .error fault => .error (.invalidSpec (.notText fault))
  | .ok text =>
    let text := Text.trim Text.isAsciiBlank text
    if text.head? = some '{' then
      (Json.readAll Document.readRecipe text).mapError fun fault =>
        .invalidSpec (.document (String.ofList text) fault)
    else (Lines.read text).mapError .invalidSpec

end TarRecipe.Recipe
