/-!
# Operators of expressions
-/

namespace Llama

/-- The operators that stand between two operands. -/
inductive BinaryOp where
  | seq | assign | or | and
  /-- Equality of contents. -/
  | eq
  | neq
  /-- Identity. -/
  | natEq
  | natNeq
  | lt | le | gt | ge
  | add | sub | mul | div | mod
  | fAdd | fSub | fMul | fDiv | pow
deriving DecidableEq, Repr

def BinaryOp.symbol : BinaryOp → String
  | .seq => ";"
  | .assign => ":="
  | .or => "||"
  | .and => "&&"
  | .eq => "="
  | .neq => "<>"
  | .natEq => "=="
  | .natNeq => "!="
  | .lt => "<"
  | .le => "<="
  | .gt => ">"
  | .ge => ">="
  | .add => "+"
  | .sub => "-"
  | .mul => "*"
  | .div => "/"
  | .mod => "mod"
  | .fAdd => "+."
  | .fSub => "-."
  | .fMul => "*."
  | .fDiv => "/."
  | .pow => "**"

/-- The operators that stand before one operand. -/
inductive UnaryOp where
  | plus | minus | fPlus | fMinus | not
  /-- The contents of a reference. -/
  | deref
deriving DecidableEq, Repr

def UnaryOp.symbol : UnaryOp → String
  | .plus => "+"
  | .minus => "-"
  | .fPlus => "+."
  | .fMinus => "-."
  | .not => "not"
  | .deref => "!"

end Llama
