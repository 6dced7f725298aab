import Llama.Tree.Basic

/-!
# Trees as nested lists

Every compound node is written in parentheses with its head first, its parts separated by
single spaces, and every definition of a program on a line of its own:
`(let (fun f (x (y : int)) (+ x (* y 2))))`.
-/

namespace Llama

namespace Printer

/-- Items between parentheses. -/
def listed (items : List String) : String :=
  "(" ++ " ".intercalate items ++ ")"

/-- Items between brackets. -/
def bracketed (items : List String) : String :=
  "[" ++ " ".intercalate items ++ "]"

/-- A type among other items: it is put in parentheses if its text has a space. -/
def operand (ty : Ty) : String :=
  Ty.parenthesized (ty.text.toList.contains ' ') ty.text

/-- The items that declare a type, if there is one. -/
def typeTexts : Option Ty → List String
  | some ty => [":", operand ty]
  | none => []

end Printer

open Printer

/-- A parameter, in parentheses when it has a type. -/
def Param.text (param : Param) : String :=
  match param.ty with
  | some ty => listed [param.name, ":", ty.text]
  | none => param.name

namespace Pattern

mutual

/-- A pattern; a constructor without arguments stands without parentheses. -/
def text : Pattern → String
  | .const _ value => value.text
  | .var _ name => name
  | .constr _ name [] => name
  | .constr _ name (arg :: args) => listed (name :: text arg :: texts args)

def texts : List Pattern → List String
  | [] => []
  | pattern :: rest => text pattern :: texts rest

end

end Pattern

mutual

def Expr.text : Expr → String
  | .binary _ op left right => listed [op.symbol, left.text, right.text]
  | .unary _ op operand => listed [op.symbol, operand.text]
  | .construct _ name args => listed (name :: Expr.texts args)
  | .element _ name indices => listed ("[]" :: name :: Expr.texts indices)
  | .const _ value => value.text
  | .constr _ name => name
  | .var _ name => name
  | .delete _ operand => listed ["delete", operand.text]
  | .dim _ dimension name => listed ["dim", toString dimension, name]
  | .forLoop _ counter first down last body =>
    listed ["for", counter, first.text, if down then "downto" else "to", last.text, body.text]
  | .call _ name args => listed (name :: Expr.texts args)
  | .letIn _ group body => listed ["let-in", group.text, body.text]
  | .ifThen _ condition positive => listed ["if", condition.text, positive.text]
  | .ifElse _ condition positive negative =>
    listed ["if", condition.text, positive.text, negative.text]
  | .matchWith _ scrutinee clauses => listed ("match" :: scrutinee.text :: Clause.texts clauses)
  | .new _ ty => listed ["new", operand ty]
  | .whileLoop _ condition body => listed ["while", condition.text, body.text]

def Expr.texts : List Expr → List String
  | [] => []
  | expr :: rest => expr.text :: Expr.texts rest

def Clause.text : Clause → String
  | .mk _ pattern body => listed [pattern.text, body.text]

def Clause.texts : List Clause → List String
  | [] => []
  | clause :: rest => clause.text :: Clause.texts rest

def LetGroup.text : LetGroup → String
  | .mk _ isRec defs => listed ((if isRec then ["let", "rec"] else ["let"]) ++ Def.texts defs)

def Def.text : Def → String
  | .function _ name params result body =>
    listed (["fun", name, listed (params.map Param.text)] ++ typeTexts result ++ [body.text])
  | .constant _ name ty body => listed (["const", name] ++ typeTexts ty ++ [body.text])
  | .mutableVar _ name ty => listed (["mutable", name] ++ typeTexts ty)
  | .mutableArray _ name dims ty =>
    listed (["mutable", name, bracketed (Expr.texts dims)] ++ typeTexts ty)

def Def.texts : List Def → List String
  | [] => []
  | definition :: rest => definition.text :: Def.texts rest

end

def ConstructorDef.text (constructor : ConstructorDef) : String :=
  listed (constructor.name :: constructor.args.map operand)

def TypeDef.text (definition : TypeDef) : String :=
  listed (definition.name :: definition.constructors.map ConstructorDef.text)

def TypeGroup.text (group : TypeGroup) : String :=
  listed ("type" :: group.defs.map TypeDef.text)

def Definition.text : Definition → String
  | .lets group => group.text
  | .types group => group.text

/-- A program with one definition on each line. -/
def Program.text (program : Program) : String :=
  String.join (program.definitions.map fun definition => definition.text ++ "\n")

end Llama
