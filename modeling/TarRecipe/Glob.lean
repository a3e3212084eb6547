/-! Globs over whole paths. Runs of stars become one star before a pattern is read. -/

namespace TarRecipe

structure CharRange where
  low : Char
  high : Char
  deriving DecidableEq, Repr

def CharRange.contains (r : CharRange) (c : Char) : Bool :=
  r.low ≤ c && c ≤ r.high

namespace Glob

inductive Token where
  | literal (c : Char)
  | anyOne
  | star
  /-- Two stars that are a segment of their own, with the slash behind them. -/
  | segments
  | oneOf (negated : Bool) (ranges : List CharRange)
  deriving DecidableEq, Repr

inductive Defect where
  | wildcards
  | recursion
  | range
  deriving DecidableEq, Repr

def Defect.message : Defect → String
  | .wildcards => "wildcards are either regular `*` or recursive `**`"
  | .recursion => "recursive wildcards must form a single path component"
  | .range => "invalid range pattern"

structure Fault where
  position : Nat
  defect : Defect
  deriving DecidableEq, Repr

def Fault.message (f : Fault) : String :=
  "Pattern syntax error near position " ++ toString f.position ++ ": " ++ f.defect.message

end Glob

structure Glob where
  tokens : List Glob.Token
  deriving DecidableEq, Repr

namespace Glob

/-! ## Runs of stars -/

def classLength? (s : List Char) : Option Nat :=
  let start := if s.head? = some '!' then 1 else 0
  let start := if s[start]? = some ']' then start + 1 else start
  ((s.drop start).findIdx? (· == ']')).map (start + · + 1)

def fold : List Char → List Char
  | [] => []
  | c :: s =>
    if c = '*' then '*' :: fold (s.dropWhile (· == '*'))
    else if c = '[' then
      match classLength? s with
      -- left to be refused when the pattern is read
      | none => '[' :: s
      | some n => '[' :: (s.take n ++ fold (s.drop n))
    else c :: fold s
termination_by s => s.length
decreasing_by
  · have := (List.dropWhile_sublist (· == '*') (l := s)).length_le
    simp only [List.length_cons]
    omega
  · simp only [List.length_cons, List.length_drop]
    omega
  · simp

def hasTwoStars : List Char → Bool
  | c :: d :: s => (c == '*' && d == '*') || hasTwoStars (d :: s)
  | _ => false

def collapseStars (s : List Char) : List Char := if hasTwoStars s then fold s else s

/-! ## Reading -/

/-- `a-b` is a range wherever three characters are left to read; all else stands for itself. -/
def ranges : List Char → List CharRange
  | a :: '-' :: b :: s => ⟨a, b⟩ :: ranges s
  | a :: s => ⟨a, a⟩ :: ranges s
  | [] => []

def members? (negated : Bool) : List Char → Option (Token × List Char)
  | [] => none
  | c :: s =>
    match s.dropWhile (· != ']') with
    | [] => none
    | _ :: rest => some (.oneOf negated (ranges (c :: s.takeWhile (· != ']'))), rest)

def class? : List Char → Option (Token × List Char)
  | '!' :: s => members? true s
  | s => members? false s

theorem members?_length {negated : Bool} {s rest : List Char} {t : Token}
    (h : members? negated s = some (t, rest)) : rest.length < s.length := by
  cases s with
  | nil => cases h
  | cons c s =>
    rw [members?] at h
    split at h
    · cases h
    · rename_i d r hd
      cases h
      have hs := (List.dropWhile_sublist (· != ']') (l := s)).length_le
      rw [hd] at hs
      exact Nat.lt_succ_of_lt hs

theorem class?_length {s rest : List Char} {t : Token} (h : class? s = some (t, rest)) :
    rest.length < s.length := by
  unfold class? at h
  split at h
  · exact Nat.lt_succ_of_lt (members?_length h)
  · exact members?_length h

def addSegments (done : List Token) : List Token :=
  if 1 < done.length ∧ done.head? = some .segments then done else .segments :: done

/-- Reads a pattern of which `offset` characters are read, the last of them `before`. The tokens
`done` are in reverse. -/
def read (offset : Nat) (before : Option Char) (done : List Token) (s : List Char) :
    Except Fault (List Token) :=
  match s with
  | [] => .ok done.reverse
  | c :: s =>
    if c = '*' then
      let more := (s.takeWhile (· == '*')).length
      if 1 < more then .error ⟨offset + 2, .wildcards⟩
      else if more = 0 then read (offset + 1) c (.star :: done) s
      else if before.any (· != '/') then .error ⟨offset - 1, .recursion⟩
      else
        match h : s.tail with
        | [] => .ok (addSegments done).reverse
        | d :: rest =>
          if d = '/' then read (offset + 3) d (addSegments done) rest
          else .error ⟨offset + 2, .recursion⟩
    else if c = '?' then read (offset + 1) c (.anyOne :: done) s
    else if c = '[' then
      match h : class? s with
      | none => .error ⟨offset, .range⟩
      | some (t, rest) =>
        have := class?_length h
        read (offset + 1 + (s.length - rest.length)) ']' (t :: done) rest
    else read (offset + 1) c (.literal c :: done) s
termination_by s.length
decreasing_by
  · simp
  · have := congrArg List.length h
    simp only [List.length_tail, List.length_cons] at this ⊢
    omega
  · simp
  · simp only [List.length_cons]
    omega
  · simp

def ofChars (s : List Char) : Except Fault Glob := (read 0 none [] s).map Glob.mk

def compile (pattern : String) : Except Fault Glob := ofChars (collapseStars pattern.toList)

/-! ## Matching -/

structure Options where
  caseSensitive : Bool
  literalSlash : Bool
  literalLeadingDot : Bool

def options : Options where
  caseSensitive := true
  literalSlash := true
  literalLeadingDot := false

def sameChar (o : Options) (c d : Char) : Bool :=
  if o.caseSensitive then c == d else c.toLower == d.toLower

def rangeAccepts (o : Options) (c : Char) (r : CharRange) : Bool :=
  (!o.caseSensitive && r.low.isAlpha && r.high.isAlpha &&
    CharRange.contains ⟨r.low.toLower, r.high.toLower⟩ c.toLower) || r.contains c

def Token.accepts (o : Options) (atStart : Bool) (t : Token) (c : Char) : Bool :=
  let barred := (o.literalSlash && c == '/') || (atStart && o.literalLeadingDot && c == '.')
  match t with
  | .literal d => sameChar o c d
  | .anyOne => !barred
  | .oneOf negated rs => !barred && (rs.any (rangeAccepts o c) != negated)
  | .star | .segments => false

/-- What the rest of a pattern says of the rest of a path. Where the path is exhausted, no shorter
rest of it can match. -/
inductive Verdict where
  | matched
  | mismatch
  | exhausted
  deriving DecidableEq, Repr

@[macro_inline] def Verdict.orTry (v w : Verdict) : Verdict :=
  match v with
  | .mismatch => w
  | v => v

def afterStar (o : Options) (recursive : Bool) (rest : Bool → List Char → Verdict)
    (atStart : Bool) : List Char → Verdict
  | [] => rest atStart []
  | c :: s =>
    let slash := c == '/'
    if atStart && o.literalLeadingDot && c == '.' then .mismatch
    else if recursive && !slash then afterStar o recursive rest slash s
    else if !recursive && o.literalSlash && slash then .mismatch
    else (rest slash s).orTry (afterStar o recursive rest slash s)

def run (o : Options) : List Token → Bool → List Char → Verdict
  | [], _, s => if s.isEmpty then .matched else .mismatch
  | .star :: ts, atStart, s =>
    (run o ts atStart s).orTry (afterStar o false (run o ts) atStart s)
  | .segments :: ts, atStart, s =>
    (run o ts atStart s).orTry (afterStar o true (run o ts) atStart s)
  | _ :: _, _, [] => .exhausted
  | t :: ts, atStart, c :: s =>
    if t.accepts o atStart c then run o ts (c == '/') s else .mismatch

def isMatch (g : Glob) (path : String) : Bool :=
  run options g.tokens true path.toList = .matched

def firstMatch (globs : List Glob) (path : String) : Option Nat :=
  globs.findIdx? (·.isMatch path)

end Glob

end TarRecipe
