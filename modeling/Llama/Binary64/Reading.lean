import Llama.Binary64.Basic
import Llama.Text.Numeral

/-!
# Reading decimal numbers

A decimal number is digits with an optional point and an optional exponent; digits stand on
at least one side of the point. The words `inf`, `infinity` and `nan` are read in either case.
A sign may stand in front of all of them.
-/

namespace Llama.Binary64

/-- The number closest to `digits * 10^power`.

A number with its leading digit above the place of `10^400` is infinite and one below the
place of `10^-400` is zero, so the powers of ten that are formed stay small. -/
def ofDecimal (negative : Bool) (digits : List Char) (power : Int) : Binary64 :=
  let value := Text.ofDigits digits
  let leading := power + (Nat.toDigits 10 value).length
  if value = 0 || leading < -400 then finite negative 0 leastExponent
  else if 400 < leading then infinite negative
  else nearest negative (value * Nat.pow 10 power.toNat) (Nat.pow 10 (-power).toNat)

/-- The exponent part of a decimal number; an empty part stands for zero. -/
def exponent? : List Char → Option Int
  | [] => some 0
  | mark :: cs =>
    if mark = 'e' || mark = 'E' then
      match cs with
      | '-' :: ds => (Text.digits? ds).map fun n => (-n : Int)
      | '+' :: ds => (Text.digits? ds).map fun n => (n : Int)
      | ds => (Text.digits? ds).map fun n => (n : Int)
    else none

/-- A decimal number without a sign. -/
def unsigned? (negative : Bool) (cs : List Char) : Option Binary64 :=
  let whole := cs.takeWhile Char.isDigit
  let (fraction, rest) :=
    match cs.dropWhile Char.isDigit with
    | '.' :: ds => (ds.takeWhile Char.isDigit, ds.dropWhile Char.isDigit)
    | rest => ([], rest)
  if whole.isEmpty && fraction.isEmpty then none
  else (exponent? rest).map fun power =>
    ofDecimal negative (whole ++ fraction) (power - fraction.length)

/-- A number or one of the words for infinity and for what is not a number. -/
def magnitude? (negative : Bool) (cs : List Char) : Option Binary64 :=
  let word := String.ofList (cs.map Char.toLower)
  if word = "inf" || word = "infinity" then some (infinite negative)
  else if word = "nan" then some nan
  else unsigned? negative cs

/-- Reads a number with an optional sign. -/
def read? : List Char → Option Binary64
  | '-' :: cs => magnitude? true cs
  | '+' :: cs => magnitude? false cs
  | cs => magnitude? false cs

end Llama.Binary64
