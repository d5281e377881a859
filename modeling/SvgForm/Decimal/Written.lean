import SvgForm.Decimal.Shortest
import SvgForm.Text.Basic
/-! # Written numbers

How a number is written: its shortest digits, positionally while its exponent is moderate and with an
exponent of at least two digits otherwise; a whole number keeps one nought after the point.
-/

namespace SvgForm.Decimal

/-- The decisions of a written form that the digits leave open. -/
structure Form where
  /-- The least exponent written positionally. -/
  least : Int
  /-- The first exponent that is no longer written positionally. -/
  limit : Int
  /-- The fewest digits of a written exponent. -/
  exponentDigits : Nat

/-- Numbers from 0.0001 to below 10 ^ 16 are written positionally. -/
def plain : Form := ⟨-4, 16, 2⟩

/-- The digits without the noughts at their end. -/
def significant (digits : List Char) : List Char :=
  Text.dropEndWhile (· = '0') digits

/-- So many noughts. -/
def zeros (n : Nat) : List Char :=
  List.replicate n '0'

/-- Digits with the point after the first `point` of them. -/
def positional (digits : List Char) (point : Int) : List Char :=
  if point ≤ 0 then '0' :: '.' :: (zeros (-point).toNat ++ digits)
  else
    let n := point.toNat
    if digits.length ≤ n then digits ++ zeros (n - digits.length) ++ ['.', '0']
    else digits.take n ++ '.' :: digits.drop n

/-- Digits with the point after the first of them, and an exponent. -/
def scientific (form : Form) (digits : List Char) (exponent : Int) : List Char :=
  let e := Nat.toDigits 10 exponent.natAbs
  let mantissa := match digits with
    | [] => []
    | [d] => [d]
    | d :: rest => d :: '.' :: rest
  mantissa ++ 'e' :: (if exponent < 0 then '-' else '+') ::
    (zeros (form.exponentDigits - e.length) ++ e)

/-- The written form of `k · 10 ^ e`. -/
def Form.write (form : Form) (k : Nat) (e : Int) : List Char :=
  let all := Nat.toDigits 10 k
  let point : Int := all.length + e
  let digits := significant all
  if form.least ≤ point - 1 ∧ point - 1 < form.limit then positional digits point
  else scientific form digits (point - 1)

/-- A number as its shortest digits. -/
def written (x : Float) : List Char :=
  match parts x with
  | .nan => "nan".toList
  | .infinite negative => (if negative then "-inf" else "inf").toList
  | .finite negative m q =>
    (if negative then ['-'] else []) ++
      if m = 0 then "0.0".toList
      else
        let (k, e) := shortest m q
        plain.write k e

/-- A number with exactly so many places, a tie going to the even neighbour; nought has no sign. -/
def fixed (places : Nat) (x : Float) : List Char :=
  match parts x with
  | .nan => "nan".toList
  | .infinite negative => (if negative then "-inf" else "inf").toList
  | .finite negative m q =>
    let (n, d) := scaleBinary (m * Nat.pow 10 places) 1 q
    let k := roundDiv n d
    let digits := Nat.toDigits 10 k
    let padded := zeros (places + 1 - digits.length) ++ digits
    (if negative && k != 0 then ['-'] else []) ++
      padded.take (padded.length - places) ++ '.' :: padded.drop (padded.length - places)

end SvgForm.Decimal
