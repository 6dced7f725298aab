import Llama.Grammar.Operator
import Llama.Grammar.Type

/-!
# Let groups

A let group is `let`, perhaps `rec`, and definitions joined by `and`. A definition without
parameters is a constant.
-/

namespace Llama.Grammar

open Llama.Parser

def wholeExpr (d : Deeper) : Parser Expr := d.exprFrom anyRank

def exprList (d : Deeper) : Parser (List Expr) := separated .comma (wholeExpr d)

/-- A parameter: `x` or `(x : τ)`. -/
def param (d : Deeper) : Parser Param := do
  if ← isAt .genid then
    let (name, span) ← genid
    return ⟨← newSite span, name, none⟩
  else
    let start ← label (expect .lParen) "parameter"
    let (name, _) ← genid
    let _ ← expect .colon
    let ty ← d.ty
    let stop ← expect .rParen
    return ⟨← newSite (start.span.merge stop.span), name, some ty⟩

def startsParam : TokenKind → Bool
  | .genid | .lParen => true
  | _ => false

/-- A mutable variable or array: `mutable x [: τ]` or `mutable a [e1, .., en] [: τ]`. -/
def mutableDef (d : Deeper) : Parser Def := do
  let start ← expect .kwMutable
  let (name, _) ← genid
  if ← isAt .lBracket then
    let dims ← between .lBracket .rBracket (exprList d)
    let ty ← optionalType d
    return .mutableArray (← newSiteFrom start.span) name dims ty
  else
    let ty ← optionalType d
    return .mutableVar (← newSiteFrom start.span) name ty

/-- A function or a constant: `f p1 .. pn [: τ] = e`. -/
def functionDef (d : Deeper) : Parser Def := do
  let (name, start) ← label genid "definition"
  let params ← many startsParam (param d)
  let ty ← optionalType d
  let _ ← expect .equals
  let body ← wholeExpr d
  let site ← newSite (start.merge body.site.span)
  match params with
  | [] => pure (.constant site name ty body)
  | params => pure (.function site name params ty body)

def letDef (d : Deeper) : Parser Def := do
  if ← isAt .kwMutable then mutableDef d else functionDef d

def letGroup (d : Deeper) : Parser LetGroup := do
  let start ← expect .kwLet
  let isRec ← optional (expect .kwRec)
  let defs ← separated .kwAnd (letDef d)
  return .mk (← newSiteFrom start.span) isRec.isSome defs

end Llama.Grammar
