/-! # Draws

Random choices are made by draws from a source: the `n`-th draw is the whole number `source n`, and a
choice among `k` things is its remainder.
-/

namespace SvgForm

/-- A source and the number of draws made from it. -/
structure Draws where
  source : Nat → Int
  used : Nat := 0

namespace Draws

/-- Draws from a row of numbers over and over; noughts when the row is empty. -/
def cycling (row : List Int) : Draws where
  source n := (row[n % row.length]?).getD 0

/-- Chooses a number below `k`. -/
def below (d : Draws) (k : Nat) : Nat × Draws :=
  ((d.source d.used % k).toNat, { d with used := d.used + 1 })

/-- Chooses so many characters of an alphabet. -/
def chars (alphabet : List Char) : (count : Nat) → Draws → List Char × Draws
  | 0, d => ([], d)
  | count + 1, d =>
    let (i, d) := d.below alphabet.length
    let (rest, d) := chars alphabet count d
    (alphabet[i]?.toList ++ rest, d)

end Draws

end SvgForm
