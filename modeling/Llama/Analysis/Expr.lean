import Llama.Analysis.Walk

/-!
# Walking through expressions

Each construct asks for placeholders and says how they are related. The placeholder of an
expression is made before those of its parts.

A recursive let group defines all its names before its definitions are walked through. A plain
one hides its scope meanwhile and defines its names afterwards, so that in `let x = x` the
second `x` is an outer one.
-/

namespace Llama

open Analyzer

/-- What a binary operator says of its result and its operands. -/
def BinaryOp.relate (op : BinaryOp) (result left right : Tag) : Analyzer Unit :=
  match op with
  | .add | .sub | .mul | .div | .mod => allOf .int [left, right, result]
  | .fAdd | .fSub | .fMul | .fDiv | .pow => allOf .float [left, right, result]
  | .lt | .le | .gt | .ge => do
    oneOf left [.int, .float, .char]
    same left right
    spec result .bool
  | .eq | .neq | .natEq | .natNeq => do
    noneOf left [.array, .function]
    same left right
    spec result .bool
  | .and | .or => allOf .bool [left, right, result]
  | .seq => same result right
  | .assign => do
    spec left (.ref (.temp right))
    spec result .unit

/-- What a prefix operator says of its result and its operand. -/
def UnaryOp.relate (op : UnaryOp) (result operand : Tag) : Analyzer Unit :=
  match op with
  | .plus | .minus => do
    spec result .int
    same result operand
  | .fPlus | .fMinus => do
    spec result .float
    same result operand
  | .not => allOf .bool [operand, result]
  | .deref => do
    noneOf operand (TyKind.all.filter (· != .ref))
    spec operand (.ref (.temp result))

namespace Pattern

mutual

/-- Walks through a pattern and defines its names in the innermost scope. -/
def analyze : Pattern → Analyzer Tag
  | .const site value => do
    let p ← tempFor site.id none
    spec p value.ty.toTerm
    pure p
  | .var site name => do
    let p ← tempFor site.id none
    define ⟨name, .var, none, some p, site.span⟩
    pure p
  | .constr site name args => do
    let p ← tempFor site.id none
    let args ← analyzeList args
    construct p name args site.span
    pure p

def analyzeList : List Pattern → Analyzer (List Tag)
  | [] => pure []
  | pattern :: rest => do
    let first ← analyze pattern
    let rest ← analyzeList rest
    pure (first :: rest)

end

end Pattern

/-- What sort of name a definition defines. -/
def Def.symbolKind : Def → SymbolKind
  | .function .. => .function
  | .constant .. => .constant
  | .mutableVar .. | .mutableArray .. => .var

def Def.temp (d : Def) : Analyzer Tag := tempFor d.site.id d.declaredType?

/-- Defines the names of definitions in the innermost scope. -/
def Def.defineAll (defs : List Def) : Analyzer Unit :=
  defs.forM fun d => do
    let temp ← d.temp
    define ⟨d.name, d.symbolKind, d.declaredType?, some temp, d.site.span⟩

/-- Checks the type of a result, which must not be an array. -/
def validateResult (result : Option Ty) (name : String) (span : Span) : Analyzer Unit :=
  match result with
  | some ty =>
    if ty.isArray then problem (.invalidType .arrayReturn name span) else validate ty name span
  | none => pure ()

def Param.define (function : String) (param : Param) : Analyzer Tag := do
  let p ← tempFor param.site.id param.ty
  if param.name = function then
    report (.parameterNamedAsFunction param.name param.site.span)
  Analyzer.define ⟨param.name, .parameter, param.ty, some p, param.site.span⟩
  pure p

/-- The check of a mutable variable or array: now, if its type is given, or later. -/
def validateMutable (site : Site) (name : String) (ty : Option Ty) : Analyzer Unit :=
  match ty with
  | some ty => validate ty name site.span
  | none => infer fun i => i.defer ⟨site.id, name, site.span⟩

mutual

/-- Walks through an expression and gives its placeholder. -/
def Expr.analyze : Expr → Analyzer Tag
  | .const site value => do
    let t ← tempFor site.id none
    spec t value.ty.toTerm
    pure t
  | .var site name => do
    let t ← tempFor site.id none
    match ← useOf name site with
    | some s => same t s
    | none => pure ()
    pure t
  | .constr site name => do
    let t ← tempFor site.id none
    construct t name [] site.span
    pure t
  | .construct site name args => do
    let t ← tempFor site.id none
    let args ← Expr.analyzeList args
    construct t name args site.span
    pure t
  | .call site name args => do
    let t ← tempFor site.id none
    let args ← Expr.analyzeList args
    match ← useOf name site with
    | some f => spec f (Term.curried (args.map .temp) (.temp t))
    | none => pure ()
    pure t
  | .element site name indices => do
    let t ← tempFor site.id none
    Expr.analyzeSizes indices
    let element ← aux site.id none
    match ← useOf name site with
    | some a => spec a (.array (.temp element) indices.length)
    | none => pure ()
    spec t (.ref (.temp element))
    pure t
  | .dim site dimension name => do
    let t ← tempFor site.id none
    if dimension < 1 then problem (.dimensionOutOfRange name dimension site.span)
    match ← useOf name site with
    | some a => oneOf a [.array]
    | none => pure ()
    spec t .int
    pure t
  | .binary site op left right => do
    let t ← tempFor site.id none
    let l ← left.analyze
    let r ← right.analyze
    op.relate t l r
    pure t
  | .unary site op operand => do
    let t ← tempFor site.id none
    let o ← operand.analyze
    op.relate t o
    pure t
  | .delete site operand => do
    let t ← tempFor site.id none
    let e ← operand.analyze
    let inner ← aux site.id none
    spec e (.ref (.temp inner))
    spec t .unit
    pure t
  | .new site ty => do
    let t ← tempFor site.id none
    validate (.ref ty) "new" site.span
    spec t (Ty.ref ty).toTerm
    pure t
  | .forLoop site counter first _ last body => do
    let t ← tempFor site.id none
    let f ← first.analyze
    let l ← last.analyze
    spec f .int
    spec l .int
    openScope
    let c ← aux site.id (some .int)
    define ⟨counter, .var, some .int, some c, site.span⟩
    let b ← body.analyze
    closeScope
    spec b .unit
    spec t .unit
    pure t
  | .whileLoop site condition body => do
    let t ← tempFor site.id none
    let c ← condition.analyze
    let b ← body.analyze
    spec c .bool
    spec b .unit
    spec t .unit
    pure t
  | .ifThen site condition positive => do
    let t ← tempFor site.id none
    let c ← condition.analyze
    spec c .bool
    let p ← positive.analyze
    spec p .unit
    spec t .unit
    pure t
  | .ifElse site condition positive negative => do
    let t ← tempFor site.id none
    let c ← condition.analyze
    spec c .bool
    let p ← positive.analyze
    let n ← negative.analyze
    same p n
    same t p
    pure t
  | .letIn site group body => do
    let t ← tempFor site.id none
    group.analyze
    let b ← body.analyze
    closeScope
    same t b
    pure t
  | .matchWith site scrutinee clauses => do
    let t ← tempFor site.id none
    let s ← scrutinee.analyze
    Clause.analyzeList t s clauses
    pure t

def Expr.analyzeList : List Expr → Analyzer (List Tag)
  | [] => pure []
  | expr :: rest => do
    let first ← expr.analyze
    let rest ← Expr.analyzeList rest
    pure (first :: rest)

/-- Walks through indices or sizes of an array, which are integers. -/
def Expr.analyzeSizes : List Expr → Analyzer Unit
  | [] => pure ()
  | expr :: rest => do
    let size ← expr.analyze
    spec size .int
    Expr.analyzeSizes rest

/-- Walks through the clauses of a match, given its placeholder and that of what is matched. -/
def Clause.analyzeList (result scrutinee : Tag) : List Clause → Analyzer Unit
  | [] => pure ()
  | .mk _ pattern body :: rest => do
    openScope
    let p ← pattern.analyze
    same p scrutinee
    let b ← body.analyze
    same result b
    closeScope
    Clause.analyzeList result scrutinee rest

/-- Walks through a let group and leaves its scope open. -/
def LetGroup.analyze : LetGroup → Analyzer Unit
  | .mk _ isRec defs => do
    openScope
    if isRec then
      Def.defineAll defs
      Def.analyzeList defs
    else
      rescope fun scopes => scopes.setVisible false
      Def.analyzeList defs
      rescope fun scopes => scopes.setVisible true
      Def.defineAll defs

def Def.analyzeList : List Def → Analyzer Unit
  | [] => pure ()
  | d :: rest => do
    d.analyze
    Def.analyzeList rest

def Def.analyze : Def → Analyzer Unit
  | .function site name params result body => do
    params.forM fun param => validateOption param.ty param.name param.site.span
    validateResult result name site.span
    let f ← tempFor site.id (Def.functionType? params result)
    openScope
    let ps ← params.mapM (Param.define name)
    let b ← body.analyze
    match result with
    | some ty => spec b ty.toTerm
    | none => pure ()
    spec f (Term.curried (ps.map .temp) (.temp b))
    closeScope
  | .constant site name ty body => do
    validateOption ty name site.span
    let c ← tempFor site.id ty
    let b ← body.analyze
    same c b
  | .mutableVar site name ty => do
    let _ ← tempFor site.id (ty.map Ty.ref)
    validateMutable site name (ty.map Ty.ref)
  | .mutableArray site name dims ty => do
    Expr.analyzeSizes dims
    let _ ← tempFor site.id (ty.map fun ty => Ty.array ty dims.length)
    validateMutable site name (ty.map fun ty => Ty.array ty dims.length)

end

end Llama
