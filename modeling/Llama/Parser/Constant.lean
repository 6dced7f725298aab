import Llama.Binary64.Reading
import Llama.Parser.Basic
import Llama.Token.Literal

/-!
# Names and constants
-/

namespace Llama.Parser

def genid : Parser (String × Span) := do
  let token ← label (expect .genid) "identifier"
  pure (token.value, token.span)

def conid : Parser (String × Span) := do
  let token ← label (expect .conid) "constructor"
  pure (token.value, token.span)

/-- The name that a type definition defines. The keywords for built-in types are let through,
so that the type table can refuse them. -/
def typeName : Parser (String × Span) := do
  let token ← expectOneOf [.genid, .kwInt, .kwBool, .kwChar, .kwFloat, .kwUnit] "type name"
  pure (token.value, token.span)

def startsConstant : TokenKind → Bool
  | .kwTrue | .kwFalse | .intLiteral | .floatLiteral | .charLiteral | .stringLiteral => true
  | _ => false

/-- The value of a literal of the given kind, or why it has none. -/
def constantOf (kind : TokenKind) (value : String) : Except String Const :=
  match kind with
  | .kwTrue => .ok (.bool true)
  | .kwFalse => .ok (.bool false)
  | .intLiteral =>
    match Text.int64? value.toList with
    | some n => .ok (.int n)
    | none => .error "integer literal out of range"
  | .floatLiteral =>
    match Binary64.read? value.toList with
    | some x => .ok (.float x)
    | none => .error "malformed float literal"
  | .charLiteral =>
    match Literal.char? value with
    | some c => .ok (.char c)
    | none => .error "malformed character literal"
  | .stringLiteral =>
    match Literal.string? value with
    | some s => .ok (.string s)
    | none => .error "malformed string literal"
  | _ => .error "not a literal"

/-- A literal constant. A literal without a value is an error at its token. -/
def constant : Parser (Const × Span) := do
  let e := (← errorHere).expecting "constant"
  if ← startsWith startsConstant then
    match ← advance with
    | some token =>
      match constantOf token.kind token.value with
      | .ok value => pure (value, token.span)
      | .error note => failWith (e.noting note)
    | none => failWith e
  else failWith e

end Llama.Parser
