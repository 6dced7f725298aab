import Llama.Text.Graphic
import Llama.Text.Numeral

/-!
# Quoted characters and strings

A character between quotes is written as itself when it is graphic. The quote that encloses
the text, the backslash and four controls have an escape of two characters, and every other
character is given by its code point. Text for a terminal is not quoted: there only the controls
that steer a terminal are escaped.
-/

namespace Llama.Text

/-- The code point of a character, in braces after a backslash and the letter u. -/
def codePointEscape (c : Char) : List Char :=
  '\\' :: 'u' :: '\x7b' :: hexDigits c.toNat ++ ['\x7d']

/-- A character as it is written between two copies of `quote`. -/
def escape (quote c : Char) : List Char :=
  if c = '\x00' then ['\\', '0']
  else if c = '\t' then ['\\', 't']
  else if c = '\r' then ['\\', 'r']
  else if c = '\n' then ['\\', 'n']
  else if c = quote || c = '\\' then ['\\', c]
  else if isGraphic c then [c]
  else codePointEscape c

/-- A text between two copies of `quote`. -/
def quoted (quote : Char) (cs : List Char) : List Char :=
  quote :: cs.flatMap (escape quote) ++ [quote]

def quotedChar (c : Char) : String :=
  String.ofList (quoted '\'' [c])

def quotedString (s : String) : String :=
  String.ofList (quoted '"' s.toList)

/-- A control of the ASCII range, by its code in two hexadecimal digits. -/
def byteEscape (c : Char) : List Char :=
  let digits := hexDigits c.toNat
  '\\' :: 'x' :: List.replicate (2 - digits.length) '0' ++ digits

/-- A character as it is shown on a terminal. -/
def shownChar (c : Char) : List Char :=
  if c ∈ ['\x07', '\x08', '\x0c', '\x1b', '\x7f'] then byteEscape c
  else if 0x80 ≤ c.toNat ∧ c.toNat ≤ 0x9f then codePointEscape c
  else [c]

def shown (s : String) : String :=
  String.ofList (s.toList.flatMap shownChar)

end Llama.Text
