import Llama.Binary64.Basic

/-!
# The shortest decimal that reads back

The reals that round to a number form an interval around it, which holds its ends when the
significand is even. `shortest` looks for the coarsest power of ten with a multiple inside
that interval. When two multiples lie inside, it takes the one closer to the number, and the
larger one when both are equally close.
-/

namespace Llama.Binary64

/-- A decimal `digits * 10^power`. -/
structure Decimal where
  digits : Nat
  power : Int
deriving DecidableEq, Repr

/-- The interval of reals that round to a number, in units of `2^scale`. -/
structure Interval where
  low : Nat
  middle : Nat
  high : Nat
  scale : Int
  /-- Whether the ends round to the number too. -/
  closed : Bool

/-- The interval around `significand * 2^exponent`. Below a power of two the numbers lie
twice as close, so the lower half of the interval is shorter there. -/
def interval (significand : Nat) (exponent : Int) : Interval where
  low := 4 * significand -
    (if significand = Nat.pow 2 52 && leastExponent < exponent then 1 else 2)
  middle := 4 * significand
  high := 4 * significand + 2
  scale := exponent - 2
  closed := significand % 2 == 0

namespace Interval

/-- Both sides of a comparison between `2^scale` and `10^power` as whole numbers. -/
def weights (i : Interval) (power : Int) : Nat × Nat :=
  (Nat.pow 2 i.scale.toNat * Nat.pow 10 (-power).toNat,
    Nat.pow 2 (-i.scale).toNat * Nat.pow 10 power.toNat)

/-- Whether `c * 10^power` lies in the interval. -/
def holds (i : Interval) (power : Int) (c : Nat) : Bool :=
  let (binary, decimal) := i.weights power
  if i.closed then i.low * binary ≤ c * decimal && c * decimal ≤ i.high * binary
  else i.low * binary < c * decimal && c * decimal < i.high * binary

/-- The multiple of `10^power` in the interval that is closest to the middle. -/
def closest? (i : Interval) (power : Int) : Option Nat :=
  let (binary, decimal) := i.weights power
  let below := i.middle * binary / decimal
  let rest := i.middle * binary % decimal
  match i.holds power below, i.holds power (below + 1) with
  | true, true => some (if decimal ≤ 2 * rest then below + 1 else below)
  | true, false => some below
  | false, true => some (below + 1)
  | false, false => none

/-- Tries the powers of ten from `power` downwards, at most `tries` of them. -/
def search (i : Interval) : (tries : Nat) → (power : Int) → Decimal
  | 0, power => ⟨i.middle * (i.weights power).1 / (i.weights power).2, power⟩
  | tries + 1, power =>
    match i.closest? power with
    | some c => ⟨c, power⟩
    | none => i.search tries (power - 1)

end Interval

/-- The decimal of fewest digits that rounds to `significand * 2^exponent`.

The first power tried exceeds the number, and seventeen digits always suffice, so that the
search ends well within its bound. -/
def shortest (significand : Nat) (exponent : Int) : Decimal :=
  let size : Int := significand.log2 + exponent + 1
  (interval significand exponent).search 40 (size * 3 / 10 + 2)

end Llama.Binary64
