/-! # Binary floating-point numbers as fractions

A finite double is a whole number of powers of two, so every question about its decimal digits can be
asked of whole numbers. The way back is the nearest double to a fraction, a tie going to the even
neighbour.
-/

namespace SvgForm.Decimal

/-- What a double stands for. -/
inductive Parts
  /-- The number `m · 2 ^ q`, negated if `negative`. -/
  | finite (negative : Bool) (m : Nat) (q : Int)
  | infinite (negative : Bool)
  | nan

/-- The parts of the double with these bits. -/
def Parts.ofBits (bits : Nat) : Parts :=
  let negative := bits / Nat.pow 2 63 % 2 == 1
  let exponent : Nat := bits / Nat.pow 2 52 % 2048
  let fraction : Nat := bits % Nat.pow 2 52
  if exponent = 2047 then if fraction = 0 then .infinite negative else .nan
  else if exponent = 0 then .finite negative fraction (-1074)
  else .finite negative (Nat.pow 2 52 + fraction) ((exponent : Int) - 1075)

def parts (x : Float) : Parts :=
  .ofBits x.toBits.toNat

/-- The whole number nearest to `num / den`, a tie going to the even one. -/
def roundDiv (num den : Nat) : Nat :=
  let n := num / den
  let twice := 2 * (num % den)
  if den < twice ∨ (twice = den ∧ n % 2 = 1) then n + 1 else n

/-- `num / den · 2 ^ e` as a fraction. -/
def scaleBinary (num den : Nat) (e : Int) : Nat × Nat :=
  if 0 ≤ e then (num * Nat.pow 2 e.toNat, den) else (num, den * Nat.pow 2 (-e).toNat)

/-- The exponent `q` for which `num / den` is a 53-bit multiple of `2 ^ q`, or the least exponent of a
double. -/
def binaryExponent (num den : Nat) : Int :=
  let q : Int := (num.log2 : Int) - den.log2 - 52
  let (n, d) := scaleBinary num den (-q)
  max (if n < Nat.pow 2 52 * d then q - 1 else q) (-1074)

/-- The bits of the double nearest to `num / den`; those of infinity beyond the greatest double. -/
def nearestBits (num den : Nat) : Nat :=
  if num = 0 then 0
  else
    let q := binaryExponent num den
    let (n, d) := scaleBinary num den (-q)
    min ((q + 1074).toNat * Nat.pow 2 52 + roundDiv n d) (2047 * Nat.pow 2 52)

/-- The double nearest to `num / den`, negated if `negative`. -/
def nearest (negative : Bool) (num den : Nat) : Float :=
  .ofBits (.ofNat ((if negative then Nat.pow 2 63 else 0) + nearestBits num den))

/-- The double nearest to a whole number divided by `den`. -/
def nearestInt (n : Int) (den : Nat) : Float :=
  nearest (n < 0) n.natAbs den

/-- The number without its fraction; nothing for an infinity or a number that is none. -/
def truncated? (x : Float) : Option Int :=
  match parts x with
  | .finite negative m q =>
    let (n, d) := scaleBinary m 1 q
    some (if negative then -(n / d : Nat) else (n / d : Nat))
  | _ => none

/-- The nearest whole number, a tie going to the even one. -/
def rounded? (x : Float) : Option Int :=
  match parts x with
  | .finite negative m q =>
    let (n, d) := scaleBinary m 1 q
    some (if negative then -(roundDiv n d : Nat) else (roundDiv n d : Nat))
  | _ => none

/-- The number when it has no fraction. -/
def whole? (x : Float) : Option Int :=
  match parts x with
  | .finite negative m q =>
    let (n, d) := scaleBinary m 1 q
    if n % d = 0 then some (if negative then -(n / d : Nat) else (n / d : Nat)) else none
  | _ => none

/-- The number rounded to so many decimal places, a tie going to the even neighbour. -/
def roundPlaces (places : Nat) (x : Float) : Float :=
  match parts x with
  | .finite negative m q =>
    let (n, d) := scaleBinary (m * Nat.pow 10 places) 1 q
    if q < 0 then nearest negative (roundDiv n d) (Nat.pow 10 places) else x
  | _ => x

end SvgForm.Decimal
