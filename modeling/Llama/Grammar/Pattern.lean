import Llama.Grammar.Deeper
import Llama.Parser.Constant

/-!
# Patterns

A pattern is a constructor with simple patterns after it, or a simple pattern: a name, a bare
constructor, a constant that may have a sign, or a pattern in parentheses.
-/

namespace Llama.Grammar

open Llama.Parser

def startsSimplePattern : TokenKind → Bool
  | .lParen | .kwTrue | .kwFalse | .charLiteral | .intLiteral | .floatLiteral
  | .plus | .minus | .fPlus | .fMinus | .genid | .conid => true
  | _ => false

/-- A sign and a literal of the given kind. The sign is part of the constant. -/
def signedConstant (literal : TokenKind) (negative : Bool) : Parser Pattern := do
  let _ ← advance
  let sign ← lastSpan
  let e ← errorHere
  let number ← expect literal
  match constantOf literal (if negative then "-" ++ number.value else number.value) with
  | .ok value => return .const (← newSite (sign.merge number.span)) value
  | .error note => failWith (e.noting note)

/-- A pattern that can stand as an argument. -/
def simplePattern (d : Deeper) : Parser Pattern := do
  match ← peekKind with
  | some .lParen => between .lParen .rParen d.pattern
  | some .genid =>
    let (name, span) ← genid
    return .var (← newSite span) name
  | some .conid =>
    let (name, span) ← conid
    return .constr (← newSite span) name []
  | some .plus => signedConstant .intLiteral false
  | some .minus => signedConstant .intLiteral true
  | some .fPlus => signedConstant .floatLiteral false
  | some .fMinus => signedConstant .floatLiteral true
  | some .kwTrue | some .kwFalse | some .charLiteral | some .intLiteral | some .floatLiteral =>
    let (value, span) ← constant
    return .const (← newSite span) value
  | _ => unexpected "pattern"

/-- A constructor with its arguments, or a simple pattern. -/
def pattern (d : Deeper) : Parser Pattern := do
  if ← isAt .conid then
    let (name, start) ← conid
    let args ← many startsSimplePattern (simplePattern d)
    return .constr (← newSiteFrom start) name args
  else simplePattern d

end Llama.Grammar
