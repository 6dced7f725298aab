import Llama.Token.Kind
import Llama.Text.Numeral

/-!
# Lexemes

For each kind of token, the text of that kind that stands at the front of an input, and among
all kinds the longest such text. When two kinds match equally far, the one that takes
precedence wins, so that a keyword is no name.
-/

namespace Llama.Lexeme

/-- The characters a name may have after its first. -/
def isNameChar (c : Char) : Bool :=
  c.isAlphanum || c == '_' || c == '\''

/-- A name whose first character is in the given class. -/
def name? (first : Char → Bool) : List Char → Option (List Char)
  | c :: cs => if first c then some (c :: cs.takeWhile isNameChar) else none
  | [] => none

/-- A non-empty run of digits. -/
def digits? (cs : List Char) : Option (List Char) :=
  if (cs.takeWhile Char.isDigit).isEmpty then none else some (cs.takeWhile Char.isDigit)

/-- The exponent of a float literal, or nothing when none can be read. -/
def exponent : List Char → List Char
  | mark :: cs =>
    if mark = 'e' || mark = 'E' then
      match cs with
      | sign :: ds =>
        if sign = '+' || sign = '-' then
          match digits? ds with
          | some run => mark :: sign :: run
          | none => []
        else
          match digits? cs with
          | some run => mark :: run
          | none => []
      | [] => []
    else []
  | [] => []

/-- Digits, a point, digits, and perhaps an exponent. -/
def float? (cs : List Char) : Option (List Char) :=
  match digits? cs with
  | none => none
  | some whole =>
    match cs.drop whole.length with
    | '.' :: ds =>
      match digits? ds with
      | some fraction => some (whole ++ '.' :: fraction ++ exponent (ds.drop fraction.length))
      | none => none
    | _ => none

/-- A quoted character: a plain one or an escape. -/
def char? : List Char → Option (List Char)
  | '\'' :: '\\' :: c :: '\'' :: _ => if c = '\n' then none else some ['\'', '\\', c, '\'']
  | '\'' :: '\\' :: 'x' :: a :: b :: '\'' :: _ =>
    if Text.isHexDigit a && Text.isHexDigit b then some ['\'', '\\', 'x', a, b, '\''] else none
  | '\'' :: c :: '\'' :: _ =>
    if c = '\'' || c = '\\' || c = '\n' then none else some ['\'', c, '\'']
  | _ => none

/-- What is left of a string literal after its opening quote, up to the closing one. -/
def stringBody? : List Char → Option (List Char)
  | '"' :: _ => some ['"']
  | '\\' :: c :: cs => if c = '\n' then none else (stringBody? cs).map ('\\' :: c :: ·)
  | c :: cs => if c = '\\' || c = '\n' then none else (stringBody? cs).map (c :: ·)
  | [] => none

/-- A quoted string on one line. -/
def string? : List Char → Option (List Char)
  | '"' :: cs => (stringBody? cs).map ('"' :: ·)
  | _ => none

/-- The text of the given kind at the front of an input. -/
def ofKind? (kind : TokenKind) (cs : List Char) : Option (List Char) :=
  match kind with
  | .genid => name? Char.isLower cs
  | .conid => name? Char.isUpper cs
  | .intLiteral => digits? cs
  | .floatLiteral => float? cs
  | .charLiteral => char? cs
  | .stringLiteral => string? cs
  | kind =>
    match kind.text with
    | some text => if text.toList.isPrefixOf cs then some text.toList else none
    | none => none

/-- The better of a match found so far and a match of a later kind. -/
def longer (best : Option (TokenKind × List Char)) (kind : TokenKind)
    (found : Option (List Char)) : Option (TokenKind × List Char) :=
  match best, found with
  | best, none => best
  | none, some text => some (kind, text)
  | some (k, t), some text => if t.length < text.length then some (kind, text) else some (k, t)

/-- The longest lexeme at the front of an input, of the kind that takes precedence. -/
def longest? (cs : List Char) : Option (TokenKind × List Char) :=
  TokenKind.all.foldl (fun best kind => longer best kind (ofKind? kind cs)) none

end Llama.Lexeme
