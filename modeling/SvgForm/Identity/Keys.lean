import SvgForm.Text.Digit
/-! # Unique keys

Keys are handed out so that no two are equal. A key that was handed out before gets a number after it, and
no numbered key is one of the reserved ones: `x, x, x_2` becomes `x, x_3, x_2` where all three are reserved.
-/

namespace SvgForm

/-- A key for the first occurrence, the key with the number of the occurrence for every later one. -/
def disambiguate (key : String) (occurrence : Nat) : String :=
  if occurrence ≤ 1 then key else key ++ "_" ++ .ofList (Text.natDigits occurrence)

structure UniqueKeys where
  reserved : List String
  issued : List String := []
  /-- The number of the last occurrence of each key. -/
  counts : List (String × Nat) := []

namespace UniqueKeys

/-- Whether this occurrence of a key cannot be handed out. -/
def blocks (u : UniqueKeys) (key : String) (occurrence : Nat) : Bool :=
  let candidate := disambiguate key occurrence
  candidate ∈ u.issued || (1 < occurrence && candidate ∈ u.reserved)

/-- The first occurrence from `n` on that can be handed out, of so many. -/
def firstFree (u : UniqueKeys) (key : String) : (tries n : Nat) → Nat
  | 0, n => n
  | tries + 1, n => if u.blocks key n then u.firstFree key tries (n + 1) else n

/-- The number of the last occurrence of a key. -/
def count (u : UniqueKeys) (key : String) : Nat :=
  (u.counts.lookup key).getD 0

/-- Hands out a key. Fewer occurrences are blocked than there are reserved and issued keys, so a free one
is found. -/
def claim (u : UniqueKeys) (key : String) : String × UniqueKeys :=
  let n := u.firstFree key (u.reserved.length + u.issued.length + 1) (u.count key + 1)
  let issued := disambiguate key n
  (issued, { u with issued := issued :: u.issued, counts := (key, n) :: u.counts })

/-- Hands out keys in order. -/
def claimAll (u : UniqueKeys) : List String → List String × UniqueKeys
  | [] => ([], u)
  | key :: keys =>
    let (issued, u) := u.claim key
    let (rest, u) := u.claimAll keys
    (issued :: rest, u)

end UniqueKeys

end SvgForm
