import TarRecipe.Glob
import TarRecipe.Text.Utf8

/-! The patterns of ignore files, which match paths byte by byte. -/

namespace TarRecipe.Ignore

inductive Token where
  | literal (c : Char)
  | anyByte
  | star
  /-- Nothing, or whole segments from the start on. -/
  | leading
  /-- A slash and all below it. -/
  | trailing
  /-- A slash, or whole segments between two slashes. -/
  | between
  | oneOf (negated : Bool) (ranges : List CharRange)
  | oneAmong (branches : List (List Token))
  deriving Repr

inductive PatternFault where
  | badRange (low high : Char)
  | unopenedGroup
  | unclosedGroup
  | danglingEscape
  deriving DecidableEq, Repr

def PatternFault.message : PatternFault → String
  | .badRange low high =>
    "invalid range; '" ++ String.ofList [low] ++ "' > '" ++ String.ofList [high] ++ "'"
  | .unopenedGroup =>
    "unopened alternate group; missing '\x7b' (maybe escape '\x7d' with '[\x7d]'?)"
  | .unclosedGroup =>
    "unclosed alternate group; missing '\x7d' (maybe escape '\x7b' with '[\x7b]'?)"
  | .danglingEscape => "dangling '\\'"

/-! ## Classes -/

inductive ClassEnd where
  | closed (ranges : List CharRange) (rest : List Char)
  | unclosed
  | fault (f : PatternFault)

def stretch (c : Char) : List CharRange → Except PatternFault (List CharRange)
  | [] => .ok [⟨c, c⟩]
  | r :: rs => if c < r.low then .error (.badRange r.low c) else .ok (⟨r.low, c⟩ :: rs)

def classItems (done : List CharRange) (first dash : Bool) : List Char → ClassEnd
  | [] => .unclosed
  | c :: s =>
    if c = ']' && !first then .closed (if dash then ⟨'-', '-'⟩ :: done else done) s
    else if c = '-' && !first && !dash then classItems done false true s
    else if dash then
      match stretch c done with
      | .ok done => classItems done false false s
      | .error f => .fault f
    else classItems (⟨c, c⟩ :: done) false false s

theorem classItems_length {done : List CharRange} {first dash : Bool} {s rest : List Char}
    {rs : List CharRange} (h : classItems done first dash s = .closed rs rest) :
    rest.length < s.length := by
  induction s generalizing done first dash with
  | nil => simp [classItems] at h
  | cons c s ih =>
    simp only [classItems] at h
    split at h
    · cases h; simp
    · split at h
      · have := ih h; simp only [List.length_cons]; omega
      · split at h
        · split at h
          · have := ih h; simp only [List.length_cons]; omega
          · cases h
        · have := ih h; simp only [List.length_cons]; omega

def classBody : List Char → Bool × List Char
  | '!' :: s => (true, s)
  | '^' :: s => (true, s)
  | s => (false, s)

theorem classBody_length (s : List Char) : (classBody s).2.length ≤ s.length := by
  unfold classBody
  split <;> simp

/-! ## Patterns -/

structure Group where
  before : List Token
  branches : List (List Token)

/-- What is read of a pattern: the branch at hand, last token first, the open groups, innermost
first, and whether an unclosed bracket was met, after which every bracket stands for itself. -/
structure Reading where
  branch : List Token
  groups : List Group
  plainBrackets : Bool

namespace Reading

def push (r : Reading) (t : Token) : Reading := { r with branch := t :: r.branch }

def openGroup (r : Reading) : Reading :=
  { r with branch := [], groups := ⟨r.branch, []⟩ :: r.groups }

def nextBranch (r : Reading) : Reading :=
  match r.groups with
  | [] => r.push (.literal ',')
  | g :: gs => { r with
      branch := []
      groups := { g with branches := r.branch.reverse :: g.branches } :: gs }

def closeGroup (r : Reading) : Except PatternFault Reading :=
  match r.groups with
  | [] => .error .unopenedGroup
  | g :: gs => .ok { r with
      branch := .oneAmong (r.branch.reverse :: g.branches).reverse :: g.before
      groups := gs }

def absorb (r : Reading) (t : Token) : Reading :=
  match r.branch with
  | .leading :: _ => r
  | .trailing :: _ => r
  | _ :: ts => { r with branch := t :: ts }
  | [] => r

def twoStars (r : Reading) : Reading := (r.push .star).push .star

def doubleStar (r : Reading) (before : Option Char) (after : List Char) : Reading × Bool :=
  if r.branch.isEmpty then
    match after with
    | [] => (r.push .leading, false)
    | '/' :: _ => (r.push .leading, true)
    | _ => (r.twoStars, false)
  else if before = some '/' ∨ (!r.groups.isEmpty ∧ (before = some ',' ∨ before = some '\x7b')) then
    match after with
    | [] => (r.absorb .trailing, false)
    | '/' :: _ => (r.absorb .between, true)
    | c :: _ =>
      if !r.groups.isEmpty && (c == ',' || c == '\x7d') then (r.absorb .trailing, false)
      else (r.twoStars, false)
  else (r.twoStars, false)

def finish (r : Reading) (before : Option Char) (s : List Char) :
    Except PatternFault (List Token) :=
  match s with
  | [] => if r.groups.isEmpty then .ok r.branch.reverse else .error .unclosedGroup
  | c :: s =>
    if c = '?' then (r.push .anyByte).finish (some c) s
    else if c = '*' then
      match s with
      | '*' :: t =>
        match r.doubleStar before t with
        | (r, true) => r.finish (some '/') t.tail
        | (r, false) => r.finish (some '*') t
      | rest => (r.push .star).finish (some c) rest
    else if c = '[' ∧ !r.plainBrackets then
      match h : classItems [] true false (classBody s).2 with
      | .closed ranges rest =>
        have := Nat.lt_of_lt_of_le (classItems_length h) (classBody_length s)
        (r.push (.oneOf (classBody s).1 ranges.reverse)).finish (some ']') rest
      -- from here on brackets stand for themselves
      | .unclosed => { r.push (.literal '[') with plainBrackets := true }.finish (some c) s
      | .fault f => .error f
    else if c = '\x7b' then r.openGroup.finish (some c) s
    else if c = '\x7d' then do (← r.closeGroup).finish (some c) s
    else if c = ',' then r.nextBranch.finish (some c) s
    else if c = '\\' then
      match s with
      | [] => .error .danglingEscape
      | d :: s => (r.push (.literal d)).finish (some d) s
    else (r.push (.literal c)).finish (some c) s
termination_by s.length
decreasing_by all_goals (simp only [List.length_cons, List.length_tail] at *; omega)

end Reading

def tokens (pattern : List Char) : Except PatternFault (List Token) :=
  Reading.finish ⟨[], [], false⟩ none pattern

/-! ## Matching -/

structure ByteRange where
  low : UInt8
  high : UInt8

/-- A range of a class, in bytes: the last byte of its low end and the first of its high end span a
range, and the other bytes stand for themselves. -/
def byteRanges (r : CharRange) : List ByteRange :=
  let low := String.utf8EncodeChar r.low
  let high := String.utf8EncodeChar r.high
  if r.low = r.high then low.map fun b => ⟨b, b⟩
  else low.dropLast.map (fun b => ⟨b, b⟩) ++ ⟨low.getLastD 0, high.headD 0⟩ ::
    high.tail.map fun b => ⟨b, b⟩

def classAccepts (ranges : List CharRange) (b : UInt8) : Bool :=
  ranges.any fun r => (byteRanges r).any fun br => br.low ≤ b && b ≤ br.high

def slash : UInt8 := 0x2F

def afterSome (p : UInt8 → Bool) (k : Bytes → Bool) : Bytes → Bool
  | [] => k []
  | b :: s => k (b :: s) || (p b && afterSome p k s)

def afterByte (p : UInt8 → Bool) (k : Bytes → Bool) : Bytes → Bool
  | [] => false
  | b :: s => p b && k s

def afterBytes (t : Bytes) (k : Bytes → Bool) (s : Bytes) : Bool :=
  t.isPrefixOf s && k (s.drop t.length)

mutual

def Token.isVoid : Token → Bool
  | .oneAmong bs => allVoid bs
  | _ => false

def isVoid : List Token → Bool
  | [] => true
  | t :: ts => t.isVoid && isVoid ts

def allVoid : List (List Token) → Bool
  | [] => true
  | b :: bs => isVoid b && allVoid bs

end

mutual

def Token.run : Token → (Bytes → Bool) → Bytes → Bool
  | .literal c, k => afterBytes (String.utf8EncodeChar c) k
  | .anyByte, k => afterByte (· != slash) k
  | .star, k => afterSome (· != slash) k
  | .leading, k => fun s => k s || afterByte (· == slash) k s ||
      afterSome (fun _ => true) (afterByte (· == slash) k) s
  | .trailing, k => afterByte (· == slash) (afterSome (fun _ => true) k)
  | .between, k => fun s => afterByte (· == slash) k s ||
      afterByte (· == slash) (afterSome (fun _ => true) (afterByte (· == slash) k)) s
  | .oneOf negated ranges, k => afterByte (fun b => classAccepts ranges b != negated) k
  | .oneAmong bs, k => if allVoid bs then k else runSome bs k

def runAll : List Token → (Bytes → Bool) → Bytes → Bool
  | [], k => k
  | t :: ts, k => t.run (runAll ts k)

def runSome : List (List Token) → (Bytes → Bool) → Bytes → Bool
  | [], _ => fun _ => false
  | b :: bs, k => fun s => (!isVoid b && runAll b k s) || runSome bs k s

end

def Token.isLiteral : Token → Bool
  | .literal _ => true
  | _ => false

def Token.isLiteralOf (c : Char) : Token → Bool
  | .literal d => d == c
  | _ => false

def spellsOut : List Token → Bool
  | .leading :: ts => ts.all Token.isLiteral && ts.any (Token.isLiteralOf '/')
  | ts => ts.all Token.isLiteral

def climbs (path : Bytes) : Bool :=
  let dots := textBytes ".."
  path == dots || (slash :: dots).isSuffixOf path

def isMatch (ts : List Token) (path : Bytes) : Bool :=
  match ts with
  | [.leading] => true
  | _ =>
    let byDot := climbs path && ts.getLast?.any (Token.isLiteralOf '.') && !spellsOut ts
    !byDot && runAll ts List.isEmpty path

end TarRecipe.Ignore
