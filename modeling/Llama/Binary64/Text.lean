import Llama.Binary64.Shortest

/-!
# Writing numbers

A number is written with the fewest digits that read back as it. From `10^-4` up to `10^16`
it stands in positional notation with at least one digit after the point; outside of these
bounds it has an exponent, and a point only between digits.
-/

namespace Llama.Binary64

/-- The digits of a decimal and the place of its point, counted from the first digit. -/
def Decimal.places (d : Decimal) : List Char × Int :=
  let digits := Nat.toDigits 10 d.digits
  (digits, d.power + digits.length)

/-- Digits with the point after the first `point` of them; zeros fill the gaps. -/
def positional (digits : List Char) (point : Int) : List Char :=
  if point ≤ 0 then ['0', '.'] ++ List.replicate (-point).toNat '0' ++ digits
  else
    let whole := point.toNat
    if digits.length ≤ whole then
      digits ++ List.replicate (whole - digits.length) '0' ++ ['.', '0']
    else digits.take whole ++ '.' :: digits.drop whole

/-- Digits with the point after the first of them, and the power of ten that goes with it. -/
def scientific (digits : List Char) (point : Int) : List Char :=
  let tail := digits.drop 1
  digits.take 1 ++ (if tail.isEmpty then [] else '.' :: tail) ++
    'e' :: (toString (point - 1)).toList

/-- The text of a number without its sign. -/
def magnitudeText (significand : Nat) (exponent : Int) : List Char :=
  if significand = 0 then ['0', '.', '0']
  else
    let (digits, point) := (shortest significand exponent).places
    if -4 < point && point ≤ 16 then positional digits point else scientific digits point

def text : Binary64 → String
  | nan => "NaN"
  | infinite negative => if negative then "-inf" else "inf"
  | finite negative significand exponent =>
    let magnitude := String.ofList (magnitudeText significand exponent)
    if negative then "-" ++ magnitude else magnitude

end Llama.Binary64
