import Llama.Grammar.Let
import Llama.Grammar.Pattern

/-!
# Expressions

Operators are read by climbing: after an operand, an operator that binds tightly enough takes
the next operand and whatever binds tighter, and the result is the left operand of the next
operator. All other expressions are recognised by their first token.
-/

namespace Llama.Grammar

open Llama.Parser

/-- Whether a token can start a simple expression, which can stand as an argument. -/
def startsSimple (kind : TokenKind) : Bool :=
  startsConstant kind ||
    match kind with
    | .genid | .conid | .lParen | .bang => true
    | _ => false

def variableOrElement (d : Deeper) : Parser Expr := do
  let (name, start) ← genid
  if ← isAt .lBracket then
    let indices ← between .lBracket .rBracket (exprList d)
    return .element (← newSiteFrom start) name indices
  else return .var (← newSite start) name

def dereference (d : Deeper) : Parser Expr := do
  let start ← expect .bang
  let operand ← d.simple
  return .unary (← newSite (start.span.merge operand.site.span)) .deref operand

/-- The unit constant or an expression in parentheses. -/
def parenthesized (d : Deeper) : Parser Expr := do
  let start ← expect .lParen
  if ← isAt .rParen then
    let stop ← expect .rParen
    return .const (← newSite (start.span.merge stop.span)) .unit
  else
    let inner ← wholeExpr d
    let _ ← expect .rParen
    pure inner

/-- An expression that needs no parentheses as an argument. -/
def simpleExpr (d : Deeper) : Parser Expr := do
  match ← peekKind with
  | some .genid => variableOrElement d
  | some .conid =>
    let (name, span) ← conid
    return .constr (← newSite span) name
  | some .bang => dereference d
  | some .lParen => parenthesized d
  | some kind =>
    if startsConstant kind then
      let (value, span) ← constant
      return .const (← newSite span) value
    else unexpected "expression"
  | none => unexpected "expression"

/-- A function call, or a variable when no argument follows. -/
def variableOrCall (d : Deeper) : Parser Expr := do
  let (name, start) ← genid
  match ← many startsSimple (simpleExpr d) with
  | [] => return .var (← newSite start) name
  | args => return .call (← newSiteFrom start) name args

def construction (d : Deeper) : Parser Expr := do
  let (name, start) ← conid
  match ← many startsSimple (simpleExpr d) with
  | [] => return .constr (← newSite start) name
  | args => return .construct (← newSiteFrom start) name args

/-- The number of a dimension; it is one when none is given. -/
def dimensionNumber : Parser Int := do
  if ← isAt .intLiteral then
    let e ← errorHere
    let token ← expect .intLiteral
    match Text.int64? token.value.toList with
    | some n => pure n
    | none => failWith (e.noting "integer literal out of range")
  else pure 1

/-- The size of an array: `dim [k] a`. -/
def arrayDim : Parser Expr := do
  let start ← expect .kwDim
  let dimension ← dimensionNumber
  let (name, stop) ← genid
  return .dim (← newSite (start.span.merge stop)) dimension name

/-- A new reference: `new τ`. -/
def newRef (d : Deeper) : Parser Expr := do
  let start ← expect .kwNew
  let ty ← d.ty
  return .new (← newSiteFrom start.span) ty

/-- A counting loop: `for i = e1 to e2 do e3 done`. -/
def forLoop (d : Deeper) : Parser Expr := do
  let start ← expect .kwFor
  let (counter, _) ← genid
  let _ ← expect .equals
  let first ← wholeExpr d
  let direction ← expectOneOf [.kwTo, .kwDownto] "'to' or 'downto'"
  let last ← wholeExpr d
  let _ ← expect .kwDo
  let body ← wholeExpr d
  let _ ← expect .kwDone
  return .forLoop (← newSiteFrom start.span) counter first (direction.kind == .kwDownto) last body

/-- A conditional loop: `while e1 do e2 done`. -/
def whileLoop (d : Deeper) : Parser Expr := do
  let start ← expect .kwWhile
  let condition ← wholeExpr d
  let _ ← expect .kwDo
  let body ← wholeExpr d
  let _ ← expect .kwDone
  return .whileLoop (← newSiteFrom start.span) condition body

/-- A conditional. An `else` belongs to the nearest `if` before it. -/
def conditional (d : Deeper) : Parser Expr := do
  let start ← expect .kwIf
  let condition ← wholeExpr d
  let _ ← expect .kwThen
  let positive ← d.exprFrom branchRank
  if ← isAt .kwElse then
    let _ ← expect .kwElse
    let negative ← d.exprFrom branchRank
    return .ifElse (← newSiteFrom start.span) condition positive negative
  else return .ifThen (← newSiteFrom start.span) condition positive

def clause (d : Deeper) : Parser Clause := do
  let pattern ← d.pattern
  let _ ← expect .arrow
  let body ← wholeExpr d
  return .mk (← newSite (pattern.site.span.merge body.site.span)) pattern body

/-- A match: `match e with p1 -> e1 | p2 -> e2 .. end`. -/
def matchWith (d : Deeper) : Parser Expr := do
  let start ← expect .kwMatch
  let scrutinee ← wholeExpr d
  let _ ← expect .kwWith
  let clauses ← separated .pipe (clause d)
  let _ ← expect .kwEnd
  return .matchWith (← newSiteFrom start.span) scrutinee clauses

/-- Local definitions: `let d1 and .. in e`. The body reaches as far as it can. -/
def letIn (d : Deeper) : Parser Expr := do
  let group ← letGroup d
  let _ ← expect .kwIn
  let body ← wholeExpr d
  return .letIn (← newSite (group.site.span.merge body.site.span)) group body

/-- An expression without operators in front or between. -/
def primary (d : Deeper) : Parser Expr := do
  match ← peekKind with
  | some .genid =>
    if (← peekKindAt 1) == some .lBracket then simpleExpr d else variableOrCall d
  | some .conid => construction d
  | some .kwDim => arrayDim
  | some .kwNew => newRef d
  | some .kwBegin => between .kwBegin .kwEnd (wholeExpr d)
  | some .kwFor => forLoop d
  | some .kwWhile => whileLoop d
  | some .kwIf => conditional d
  | some .kwMatch => matchWith d
  | some .kwLet => letIn d
  | _ => simpleExpr d

/-- The least integer has no digits of its own: its sign, which was just read, is part of the
constant when the digits that follow are out of range only without it. -/
def leastInteger? (sign : Span) : Parser (Option Expr) := do
  match ← peek with
  | some token =>
    if token.kind == .intLiteral && (Text.int64? token.value.toList).isNone then
      match Text.int64? ('-' :: token.value.toList) with
      | some value =>
        let _ ← advance
        return some (.const (← newSite (sign.merge token.span)) (.int value))
      | none => pure none
    else pure none
  | none => pure none

/-- A prefix operator with its operand, of which the operator was just read. -/
def prefixed (d : Deeper) (op : UnaryOp) : Parser Expr := do
  let start ← lastSpan
  match ← if op = .minus then leastInteger? start else pure none with
  | some least => pure least
  | none =>
    let operand ← d.operand
    return .unary (← newSite (start.merge operand.site.span)) op operand

/-- An expression without operators between. -/
def unary (d : Deeper) : Parser Expr := do
  match ← peekKind with
  | none => primary d
  | some .kwDelete =>
    let _ ← advance
    let start ← lastSpan
    let operand ← d.operand
    return .delete (← newSite (start.merge operand.site.span)) operand
  | some kind =>
    match UnaryOp.ofToken? kind with
    | some op =>
      let _ ← advance
      prefixed d op
    | none => primary d

/-- Extends a left operand by the operators that bind at least as tightly as `rank`, at most a
number of them. `chained` is the rank of the operator before, if it cannot be chained. -/
def climbUpTo (d : Deeper) (rank : Nat) : Nat → Expr → Option Nat → Parser Expr
  | 0, left, _ => pure left
  | n + 1, left, chained => do
    match (← peekKind).bind BinaryOp.ofToken? with
    | none => pure left
    | some op =>
      if op.rank < rank then pure left
      else if op.assoc = .none && chained = some op.rank then
        failWith ((← errorHere).noting ("operator '" ++ op.symbol ++ "' is not associative"))
      else
        let _ ← advance
        let right ← d.exprFrom op.rightRank
        let site ← newSite (left.site.span.merge right.site.span)
        climbUpTo d rank n (.binary site op left right)
          (if op.assoc = .none then some op.rank else none)

/-- An expression whose operators bind at least as tightly as `rank`. There are no more operators
than tokens. -/
def exprFrom (d : Deeper) (rank : Nat) : Parser Expr := do
  let left ← unary d
  climbUpTo d rank (← remaining) left none

/-- The parsers for what stands below, when a number of levels is left. -/
def deeper : (levels : Nat) → Deeper
  | 0 => Deeper.none
  | levels + 1 =>
    let d := deeper levels
    { exprFrom := fun rank => counted (exprFrom d rank)
      operand := counted (unary d)
      simple := counted (simpleExpr d)
      ty := counted (arrowType d)
      arrayTy := counted (arrayType d)
      pattern := counted (pattern d) }

/-- The parsers below a definition, which is at no level itself. -/
def outermost : Deeper := deeper maxNesting

end Llama.Grammar
