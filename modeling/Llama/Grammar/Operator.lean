import Llama.Token.Kind
import Llama.Tree.Operator

/-!
# Operators and how tightly they bind

A binary operator has a rank: the higher it is, the tighter the operator binds. Operators of one
rank group the same way, or cannot be chained at all. Prefix operators bind tighter than all
binary ones.
-/

namespace Llama

/-- How operators of one rank are grouped. -/
inductive Assoc where
  | left | right | none
deriving DecidableEq, Repr

namespace BinaryOp

def ofToken? : TokenKind → Option BinaryOp
  | .semicolon => some .seq
  | .assign => some .assign
  | .bOr => some .or
  | .bAnd => some .and
  | .equals => some .eq
  | .neq => some .neq
  | .natEq => some .natEq
  | .natNeq => some .natNeq
  | .lt => some .lt
  | .le => some .le
  | .gt => some .gt
  | .ge => some .ge
  | .plus => some .add
  | .minus => some .sub
  | .times => some .mul
  | .divide => some .div
  | .kwMod => some .mod
  | .fPlus => some .fAdd
  | .fMinus => some .fSub
  | .fTimes => some .fMul
  | .fDivide => some .fDiv
  | .fPow => some .pow
  | _ => none

/-- How tightly an operator binds. -/
def rank : BinaryOp → Nat
  | .seq => 0
  | .assign => 1
  | .or => 2
  | .and => 3
  | .eq | .neq | .natEq | .natNeq | .lt | .le | .gt | .ge => 4
  | .add | .sub | .fAdd | .fSub => 5
  | .mul | .div | .mod | .fMul | .fDiv => 6
  | .pow => 7

/-- How an operator is grouped with others of its rank. -/
def assoc : BinaryOp → Assoc
  | .assign | .eq | .neq | .natEq | .natNeq | .lt | .le | .gt | .ge => .none
  | .pow => .right
  | .seq | .or | .and | .add | .sub | .fAdd | .fSub | .mul | .div | .mod | .fMul | .fDiv => .left

/-- The least rank of the operators in the right operand of an operator. -/
def rightRank (op : BinaryOp) : Nat :=
  if op.assoc = .right then op.rank else op.rank + 1

end BinaryOp

def UnaryOp.ofToken? : TokenKind → Option UnaryOp
  | .plus => some .plus
  | .minus => some .minus
  | .fPlus => some .fPlus
  | .fMinus => some .fMinus
  | .kwNot => some .not
  | _ => none

namespace Grammar

/-- A whole expression may hold every operator. -/
def anyRank : Nat := BinaryOp.seq.rank

/-- A branch of a conditional ends before a semicolon. -/
def branchRank : Nat := BinaryOp.assign.rank

end Grammar

end Llama
