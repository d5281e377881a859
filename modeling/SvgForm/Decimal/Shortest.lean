import SvgForm.Decimal.Binary
/-! # Shortest digits

The decimal digits of a double are the fewest that read back as it, and of those the nearest to it.
-/

namespace SvgForm.Decimal

/-- The number of decimal digits of `n`; none for nought. -/
def countDigits (n : Nat) : Nat :=
  if n = 0 then 0 else (Nat.toDigits 10 n).length

/-- `num / den · 10 ^ e` as a fraction. -/
def scaleDecimal (num den : Nat) (e : Int) : Nat × Nat :=
  if 0 ≤ e then (num * Nat.pow 10 e.toNat, den) else (num, den * Nat.pow 10 (-e).toNat)

/-- The `p` for which `10 ^ (p - 1) ≤ num / den < 10 ^ p`. -/
def decimalPoint (num den : Nat) : Int :=
  let p : Int := (countDigits num : Int) - countDigits den
  let (n, d) := scaleDecimal num den (-p)
  if d ≤ n then p + 1 else p

/-- The numbers that read as the double `m · 2 ^ q`: from `low` to `high` units of `2 ^ (q - 2)`, with
the ends when `closed`. -/
structure Interval where
  low : Nat
  high : Nat
  closed : Bool

/-- Above a power of two the doubles lie twice as far apart as below it. -/
def Interval.of (m : Nat) (q : Int) : Interval where
  low := if m = Nat.pow 2 52 ∧ -1074 < q then 4 * m - 1 else 4 * m - 2
  high := 4 * m + 2
  closed := m % 2 == 0

/-- Whether `n / d` units lie in the interval. -/
def Interval.holds (i : Interval) (n d : Nat) : Bool :=
  if i.closed then i.low * d ≤ n && n ≤ i.high * d else i.low * d < n && n < i.high * d

/-- The point nearest to `m · 2 ^ q` among the multiples of `10 ^ e`, if it reads back. -/
def gridPoint? (m : Nat) (q e : Int) : Option Nat :=
  let (num, den) := scaleBinary (4 * m) 1 (q - 2)
  let (n, d) := scaleDecimal num den (-e)
  let below := n / d
  let reads (k : Nat) : Bool :=
    let (a, b) := scaleDecimal k 1 e
    let (a, b) := scaleBinary a b (2 - q)
    (Interval.of m q).holds a b
  match reads below, reads (below + 1) with
  | true, true =>
    let twice := 2 * (n % d)
    if d < twice ∨ (twice = d ∧ below % 2 = 1) then some (below + 1) else some below
  | true, false => some below
  | false, true => some (below + 1)
  | false, false => none

/-- The first grid of so many digits or more on which a point reads back, in at most `tries` grids. -/
def shortestFrom (m : Nat) (q point : Int) : (tries count : Nat) → Nat × Int
  | 0, _ => (0, 0)
  | tries + 1, count =>
    match gridPoint? m q (point - count) with
    | some k => (k, point - count)
    | none => shortestFrom m q point tries (count + 1)

/-- The shortest decimal `k · 10 ^ e` that reads as `m · 2 ^ q`. Seventeen digits always suffice. -/
def shortest (m : Nat) (q : Int) : Nat × Int :=
  let (num, den) := scaleBinary m 1 q
  shortestFrom m q (decimalPoint num den) 17 1

end SvgForm.Decimal
