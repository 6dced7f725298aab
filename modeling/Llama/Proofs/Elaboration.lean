import Llama.Analysis.Program

/-!
# Elaboration in an environment

The walk through a program, said without a stack of scopes. The names that are in scope are
handed down as a list, innermost first, and a construct that binds names hands down a longer
list. A plain let group elaborates its definitions in the environment around it, a recursive one
in the environment that it extends.
-/

namespace Llama.Proofs

open Analyzer

/-- The names that are in scope, innermost first. -/
abbrev Env := List Symbol

def Env.lookup? (env : Env) (name : String) : Option Symbol :=
  env.find? fun symbol => symbol.name == name

/-- Adds a name to those of one scope. If the name is taken, its first definition stays. -/
def declare (scope : Env) (symbol : Symbol) : Analyzer Env :=
  match Env.lookup? scope symbol.name with
  | some previous => do
    report (.duplicateName ⟨symbol.name, symbol.span, previous.span⟩)
    pure scope
  | none => pure (scope ++ [symbol])

/-- The placeholder for a use of a name in an environment. -/
def resolveUse (env : Env) (name : String) (site : Site) : Analyzer (Option Tag) :=
  match Env.lookup? env name with
  | none => do
    problem (.unknownIdentifier name site.span)
    pure none
  | some symbol =>
    match symbol.temp, symbol.ty with
    | some tag, _ => pure (some tag)
    | none, some ty => return some (← aux site.id (some ty))
    | none, none => pure none

/-- Takes a step for a value, if there is one. -/
def forSome {α : Type} (value : Option α) (step : α → Analyzer Unit) : Analyzer Unit :=
  match value with
  | some a => step a
  | none => pure ()

/-- Says something of the placeholder of a name that is used, if the name is in scope. -/
def constrainUse (env : Env) (name : String) (site : Site) (step : Tag → Analyzer Unit) :
    Analyzer Unit := do
  let used ← resolveUse env name site
  forSome used step

/-- A size is asked for in a dimension, which counts from one. -/
def checkDimension (dimension : Int) (name : String) (span : Span) : Analyzer Unit :=
  if dimension < 1 then problem (.dimensionOutOfRange name dimension span) else pure ()

/-- A parameter should not have the name of its function. -/
def checkParam (function : String) (param : Param) : Analyzer Unit :=
  if param.name = function then report (.parameterNamedAsFunction param.name param.site.span)
  else pure ()

mutual

/-- Elaborates a pattern and adds its names to those of a scope. -/
@[simp]
def elaboratePattern : Pattern → Env → Analyzer (Tag × Env)
  | .const site value, scope => do
    let p ← tempFor site.id none
    spec p value.ty.toTerm
    pure (p, scope)
  | .var site name, scope => do
    let p ← tempFor site.id none
    let scope ← declare scope ⟨name, .var, none, some p, site.span⟩
    pure (p, scope)
  | .constr site name args, scope => do
    let p ← tempFor site.id none
    let r ← elaboratePatterns args scope
    construct p name r.1 site.span
    pure (p, r.2)

@[simp]
def elaboratePatterns : List Pattern → Env → Analyzer (List Tag × Env)
  | [], scope => pure ([], scope)
  | pattern :: rest, scope => do
    let first ← elaboratePattern pattern scope
    let others ← elaboratePatterns rest first.2
    pure (first.1 :: others.1, others.2)

end

/-- Adds the names of definitions to those of a scope. -/
@[simp]
def declareDefs : List Def → Env → Analyzer Env
  | [], scope => pure scope
  | d :: rest, scope => do
    let temp ← d.temp
    let scope ← declare scope ⟨d.name, d.symbolKind, d.declaredType?, some temp, d.site.span⟩
    declareDefs rest scope

/-- Adds the parameters of a function to the names of a scope. -/
@[simp]
def declareParams (function : String) : List Param → Env → Analyzer (List Tag × Env)
  | [], scope => pure ([], scope)
  | param :: rest, scope => do
    let p ← tempFor param.site.id param.ty
    checkParam function param
    let scope ← declare scope ⟨param.name, .parameter, param.ty, some p, param.site.span⟩
    let others ← declareParams function rest scope
    pure (p :: others.1, others.2)

mutual

/-- Elaborates an expression in an environment and gives its placeholder. -/
@[simp]
def elaborateExpr : Expr → Env → Analyzer Tag
  | .const site value, _ => do
    let t ← tempFor site.id none
    spec t value.ty.toTerm
    pure t
  | .var site name, env => do
    let t ← tempFor site.id none
    constrainUse env name site fun s => same t s
    pure t
  | .constr site name, _ => do
    let t ← tempFor site.id none
    construct t name [] site.span
    pure t
  | .construct site name args, env => do
    let t ← tempFor site.id none
    let args ← elaborateExprs args env
    construct t name args site.span
    pure t
  | .call site name args, env => do
    let t ← tempFor site.id none
    let args ← elaborateExprs args env
    constrainUse env name site fun f => spec f (Term.curried (args.map .temp) (.temp t))
    pure t
  | .element site name indices, env => do
    let t ← tempFor site.id none
    elaborateSizes indices env
    let element ← aux site.id none
    constrainUse env name site fun a => spec a (.array (.temp element) indices.length)
    spec t (.ref (.temp element))
    pure t
  | .dim site dimension name, env => do
    let t ← tempFor site.id none
    checkDimension dimension name site.span
    constrainUse env name site fun a => oneOf a [.array]
    spec t .int
    pure t
  | .binary site op left right, env => do
    let t ← tempFor site.id none
    let l ← elaborateExpr left env
    let r ← elaborateExpr right env
    op.relate t l r
    pure t
  | .unary site op operand, env => do
    let t ← tempFor site.id none
    let o ← elaborateExpr operand env
    op.relate t o
    pure t
  | .delete site operand, env => do
    let t ← tempFor site.id none
    let e ← elaborateExpr operand env
    let inner ← aux site.id none
    spec e (.ref (.temp inner))
    spec t .unit
    pure t
  | .new site ty, _ => do
    let t ← tempFor site.id none
    validate (.ref ty) "new" site.span
    spec t (Ty.ref ty).toTerm
    pure t
  | .forLoop site counter first _ last body, env => do
    let t ← tempFor site.id none
    let f ← elaborateExpr first env
    let l ← elaborateExpr last env
    spec f .int
    spec l .int
    let c ← aux site.id (some .int)
    let b ← elaborateExpr body (⟨counter, .var, some .int, some c, site.span⟩ :: env)
    spec b .unit
    spec t .unit
    pure t
  | .whileLoop site condition body, env => do
    let t ← tempFor site.id none
    let c ← elaborateExpr condition env
    let b ← elaborateExpr body env
    spec c .bool
    spec b .unit
    spec t .unit
    pure t
  | .ifThen site condition positive, env => do
    let t ← tempFor site.id none
    let c ← elaborateExpr condition env
    spec c .bool
    let p ← elaborateExpr positive env
    spec p .unit
    spec t .unit
    pure t
  | .ifElse site condition positive negative, env => do
    let t ← tempFor site.id none
    let c ← elaborateExpr condition env
    spec c .bool
    let p ← elaborateExpr positive env
    let n ← elaborateExpr negative env
    same p n
    same t p
    pure t
  | .letIn site group body, env => do
    let t ← tempFor site.id none
    let scope ← elaborateGroup group env
    let b ← elaborateExpr body (scope ++ env)
    same t b
    pure t
  | .matchWith site scrutinee clauses, env => do
    let t ← tempFor site.id none
    let s ← elaborateExpr scrutinee env
    elaborateClauses clauses t s env
    pure t

@[simp]
def elaborateExprs : List Expr → Env → Analyzer (List Tag)
  | [], _ => pure []
  | expr :: rest, env => do
    let first ← elaborateExpr expr env
    let others ← elaborateExprs rest env
    pure (first :: others)

/-- Elaborates indices or sizes of an array, which are integers. -/
@[simp]
def elaborateSizes : List Expr → Env → Analyzer Unit
  | [], _ => pure ()
  | expr :: rest, env => do
    let size ← elaborateExpr expr env
    spec size .int
    elaborateSizes rest env

/-- Elaborates clauses, each in the environment that its pattern extends. -/
@[simp]
def elaborateClauses : List Clause → Tag → Tag → Env → Analyzer Unit
  | [], _, _, _ => pure ()
  | .mk _ pattern body :: rest, result, scrutinee, env => do
    let p ← elaboratePattern pattern []
    same p.1 scrutinee
    let b ← elaborateExpr body (p.2 ++ env)
    same result b
    elaborateClauses rest result scrutinee env

/-- Elaborates a let group and gives the names that it defines. -/
@[simp]
def elaborateGroup : LetGroup → Env → Analyzer Env
  | .mk _ true defs, env => do
    let scope ← declareDefs defs []
    elaborateDefs defs (scope ++ env)
    pure scope
  | .mk _ false defs, env => do
    elaborateDefs defs env
    declareDefs defs []

@[simp]
def elaborateDefs : List Def → Env → Analyzer Unit
  | [], _ => pure ()
  | d :: rest, env => do
    elaborateDef d env
    elaborateDefs rest env

@[simp]
def elaborateDef : Def → Env → Analyzer Unit
  | .function site name params result body, env => do
    params.forM fun param => validateOption param.ty param.name param.site.span
    validateResult result name site.span
    let f ← tempFor site.id (Def.functionType? params result)
    let ps ← declareParams name params []
    let b ← elaborateExpr body (ps.2 ++ env)
    forSome result fun ty => spec b ty.toTerm
    spec f (Term.curried (ps.1.map .temp) (.temp b))
  | .constant site name ty body, env => do
    validateOption ty name site.span
    let c ← tempFor site.id ty
    let b ← elaborateExpr body env
    same c b
  | .mutableVar site name ty, _ => do
    let _ ← tempFor site.id (ty.map Ty.ref)
    validateMutable site name (ty.map Ty.ref)
  | .mutableArray site name dims ty, env => do
    elaborateSizes dims env
    let _ ← tempFor site.id (ty.map fun ty => Ty.array ty dims.length)
    validateMutable site name (ty.map fun ty => Ty.array ty dims.length)

end

/-- Elaborates the definitions of a program. A let group is in scope in all that follow it. -/
@[simp]
def elaborateDefinitions : List Definition → Env → Analyzer Unit
  | [], _ => pure ()
  | .lets group :: rest, env => do
    let scope ← elaborateGroup group env
    elaborateDefinitions rest (scope ++ env)
  | .types group :: rest, env => do
    group.analyze
    elaborateDefinitions rest env

/-- Elaborates a program. The names of the library are outermost. -/
def elaborateProgram (program : Program) : Analyzer Unit :=
  elaborateDefinitions program.definitions Library.symbols

end Llama.Proofs
