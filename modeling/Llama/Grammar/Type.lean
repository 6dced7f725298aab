import Llama.Grammar.Deeper
import Llama.Parser.Constant

/-!
# Types

A type is an operand, perhaps followed by an arrow and another type. An operand is an atom with
any number of `ref` after it. An array type is an atom whose element is an operand.
-/

namespace Llama.Grammar

open Llama.Parser

def startsType : TokenKind → Bool
  | .kwUnit | .kwInt | .kwChar | .kwBool | .kwFloat | .genid | .lParen | .kwArray => true
  | _ => false

def keywordType? : TokenKind → Option Ty
  | .kwUnit => some .unit
  | .kwInt => some .int
  | .kwChar => some .char
  | .kwBool => some .bool
  | .kwFloat => some .float
  | _ => none

def namedType (name : String) : Ty :=
  (Ty.builtin? name).getD (.user name)

/-- A keyword, a name, a type in parentheses, or an array type. -/
def typeAtom (d : Deeper) : Parser Ty := do
  match ← peekKind with
  | some .genid =>
    let (name, _) ← genid
    pure (namedType name)
  | some .lParen => between .lParen .rParen d.ty
  | some .kwArray => d.arrayTy
  | some kind =>
    match keywordType? kind with
    | some ty =>
      let _ ← advance
      pure ty
    | none => unexpected "type"
  | none => unexpected "type"

/-- An atom with any number of `ref` after it. -/
def typeOperand (d : Deeper) : Parser Ty := do
  let inner ← typeAtom d
  let refs ← many (· == .kwRef) (expect .kwRef)
  pure (refs.foldl (fun ty _ => .ref ty) inner)

/-- A type and, after an arrow, the type of the result. -/
def arrowType (d : Deeper) : Parser Ty := do
  let source ← typeOperand d
  if ← isAt .arrow then
    let _ ← expect .arrow
    let target ← d.ty
    pure (.func source target)
  else pure source

/-- The number of stars between brackets; without brackets it is one. -/
def dimensions : Parser Nat := do
  if ← isAt .lBracket then
    let stars ← between .lBracket .rBracket (separated .comma (expect .times))
    pure stars.length
  else pure 1

/-- An array type: `array [*, *] of τ`. -/
def arrayType (d : Deeper) : Parser Ty := do
  let _ ← expect .kwArray
  let dims ← dimensions
  let _ ← expect .kwOf
  let element ← typeOperand d
  pure (.array element dims)

/-- A type after a colon, if there is one. -/
def optionalType (d : Deeper) : Parser (Option Ty) :=
  optional do
    let _ ← expect .colon
    d.ty

end Llama.Grammar
