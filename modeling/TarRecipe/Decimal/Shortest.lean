/-! The shortest decimal that a double reads back from. -/

namespace TarRecipe.Decimal

structure Scientific where
  digits : Nat
  exponent : Int
  deriving DecidableEq, Repr

def compareBinary (a : Nat) (p : Int) (d : Nat) (e : Int) : Ordering :=
  compare (a * Nat.pow 2 p.toNat * Nat.pow 10 (-e).toNat)
    (d * Nat.pow 10 e.toNat * Nat.pow 2 (-p).toNat)

def magnitude (num den : Nat) : Int :=
  if den ≤ num then (Nat.toDigits 10 (num / den)).length - 1
  else
    let t := (Nat.toDigits 10 (den / num)).length
    if den ≤ num * Nat.pow 10 (t - 1) then 1 - t else -t

/-- The double `m * 2 ^ q` in quarters of a unit in the last place, and the ends of the decimals
that round to it. The lower neighbour of a power of two is nearer than the upper. -/
structure Interval where
  low : Nat
  value : Nat
  high : Nat
  scale : Int
  closed : Bool

def Interval.ofDouble (m : Nat) (q : Int) (nearBelow : Bool) : Interval :=
  ⟨4 * m - (if nearBelow then 1 else 2), 4 * m, 4 * m + 2, q - 2, m % 2 == 0⟩

def Interval.contains (i : Interval) (d : Nat) (e : Int) : Bool :=
  let low := compareBinary i.low i.scale d e
  let high := compareBinary i.high i.scale d e
  (low == .lt && high == .gt) || (i.closed && (low == .eq || high == .eq))

def Interval.fraction (i : Interval) : Nat × Nat :=
  (i.value * Nat.pow 2 i.scale.toNat, Nat.pow 2 (-i.scale).toNat)

def Interval.onGrid (i : Interval) (e : Int) : Option Scientific :=
  let (num, den) := i.fraction
  let num := num * Nat.pow 10 (-e).toNat
  let den := den * Nat.pow 10 e.toNat
  let d := num / den
  let upNearer := den < 2 * (num % den) || (den == 2 * (num % den) && d % 2 == 1)
  match i.contains d e, i.contains (d + 1) e with
  | true, true => some ⟨if upNearer then d + 1 else d, e⟩
  | true, false => some ⟨d, e⟩
  | false, true => some ⟨d + 1, e⟩
  | false, false => none

def Scientific.normal (x : Scientific) : Scientific :=
  let digits := Nat.toDigits 10 x.digits
  let zeros := digits.reverse.takeWhile (· == '0')
  ⟨x.digits / Nat.pow 10 zeros.length, x.exponent + zeros.length⟩

def Interval.shortest (i : Interval) : Scientific :=
  let (num, den) := i.fraction
  let top := magnitude num den
  let found := (List.range 17).findSome? fun k : Nat => i.onGrid (top - k)
  (found.getD ⟨0, 0⟩).normal

def ofFloat (x : Float) : Bool × Option Scientific :=
  let bits : Nat := x.toBits.toNat
  let mantissa : Nat := bits % 0x10000000000000
  let biased : Nat := bits / 0x10000000000000 % 0x800
  let negative := bits / 0x8000000000000000 == 1
  if biased = 0 then
    (negative,
      if mantissa = 0 then none else some (Interval.ofDouble mantissa (-1074) false).shortest)
  else
    let m := 0x10000000000000 + mantissa
    (negative, some (Interval.ofDouble m (biased - 1075) (mantissa == 0 && biased != 1)).shortest)

/-- How a decimal is written: the exponents of the first digit that are written positionally, all
others are written after an `e` and a sign. -/
structure Layout where
  least : Int
  most : Int

def Layout.write (l : Layout) (x : Scientific) : List Char :=
  let ds := Nat.toDigits 10 x.digits
  let top := x.exponent + (ds.length - 1 : Nat)
  if l.least ≤ top ∧ top ≤ l.most then
    if 0 ≤ x.exponent then ds ++ List.replicate x.exponent.toNat '0' ++ ['.', '0']
    else if 0 ≤ top then ds.take (top.toNat + 1) ++ '.' :: ds.drop (top.toNat + 1)
    else ['0', '.'] ++ List.replicate (-top - 1).toNat '0' ++ ds
  else
    let fraction := match ds.tail with
      | [] => []
      | t => '.' :: t
    ds.take 1 ++ fraction ++ ['e', if top < 0 then '-' else '+'] ++ Nat.toDigits 10 top.natAbs

def Layout.writeFloat (l : Layout) (x : Float) : List Char :=
  let (negative, decimal) := ofFloat x
  (if negative then ['-'] else []) ++
    match decimal with
    | none => ['0', '.', '0']
    | some d => l.write d

end TarRecipe.Decimal
