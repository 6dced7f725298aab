/-!
# Reading whole numbers

Digits are the ASCII digits. A machine integer is an optional sign followed by at least one
digit, with a value that fits in 64 bits of two's complement.
-/

namespace Llama.Text

def ofDigits (cs : List Char) : Nat :=
  cs.foldl (fun n c => 10 * n + (c.toNat - '0'.toNat)) 0

/-- The number written by a non-empty run of decimal digits. -/
def digits? (cs : List Char) : Option Nat :=
  if !cs.isEmpty && cs.all Char.isDigit then some (ofDigits cs) else none

/-- The machine integers reach from `-2^63` to `2^63 - 1`. -/
def int64Bound : Nat := 0x8000000000000000

/-- A machine integer with an optional sign. -/
def int64? : List Char → Option Int
  | '-' :: cs => (digits? cs).bind fun n => if n ≤ int64Bound then some (-n : Int) else none
  | '+' :: cs => (digits? cs).bind fun n => if n < int64Bound then some (n : Int) else none
  | cs => (digits? cs).bind fun n => if n < int64Bound then some (n : Int) else none

def isHexDigit (c : Char) : Bool :=
  c.isDigit || ('a' ≤ c && c ≤ 'f') || ('A' ≤ c && c ≤ 'F')

def hexDigitValue (c : Char) : Nat :=
  if c.isDigit then c.toNat - '0'.toNat
  else if 'a' ≤ c then c.toNat - 'a'.toNat + 10
  else c.toNat - 'A'.toNat + 10

/-- The hexadecimal digits of a number, in lower case and without leading zeros. -/
def hexDigits (n : Nat) : List Char :=
  Nat.toDigits 16 n

end Llama.Text
