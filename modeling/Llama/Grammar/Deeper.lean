import Llama.Parser.Basic

/-!
# One level deeper

Expressions, patterns and types contain each other only up to a number of levels. The parsers of
one level are written in terms of the parsers for what may stand one level deeper, and the
number of levels that are left bounds the recursion.
-/

namespace Llama.Grammar

/-- The parsers for what stands one level deeper. -/
structure Deeper where
  /-- An expression whose operators bind at least as tightly as the given rank. -/
  exprFrom : (rank : Nat) → Parser Expr
  /-- The operand of a prefix operator. -/
  operand : Parser Expr
  /-- The operand of a dereference. -/
  simple : Parser Expr
  ty : Parser Ty
  /-- A type that starts with `array`. -/
  arrayTy : Parser Ty
  pattern : Parser Pattern

/-- Nothing may stand any deeper. -/
def Deeper.none : Deeper :=
  ⟨fun _ => Parser.tooDeep, Parser.tooDeep, Parser.tooDeep, Parser.tooDeep, Parser.tooDeep,
    Parser.tooDeep⟩

end Llama.Grammar
