import Llama.Span
import Llama.Tree.Const
import Llama.Tree.Operator

/-!
# Syntax trees

Every node of a tree has a site: its number within the program and the stretch of source text
it was read from. A program is a list of let groups and type groups.
-/

namespace Llama

/-- The number of a node within its program. -/
abbrev NodeId := Nat

def NodeId.text (id : NodeId) : String := "#" ++ toString id

/-- Which node of a program this is and where it was read from. -/
structure Site where
  id : NodeId
  span : Span
deriving DecidableEq, Repr, Inhabited

/-- A pattern of a match clause. -/
inductive Pattern where
  /-- A constructor with patterns for its arguments. -/
  | constr (site : Site) (name : String) (args : List Pattern)
  | const (site : Site) (value : Const)
  /-- Binds the matched value to a name. -/
  | var (site : Site) (name : String)
deriving Repr

/-- A parameter of a function: `x` or `(x : τ)`. -/
structure Param where
  site : Site
  name : String
  ty : Option Ty
deriving DecidableEq, Repr

mutual

inductive Expr where
  | binary (site : Site) (op : BinaryOp) (left right : Expr)
  | unary (site : Site) (op : UnaryOp) (operand : Expr)
  /-- A constructor applied to at least one argument. -/
  | construct (site : Site) (name : String) (args : List Expr)
  /-- An element of an array: `a[i1, .., in]`. -/
  | element (site : Site) (name : String) (indices : List Expr)
  | const (site : Site) (value : Const)
  /-- A constructor without arguments. -/
  | constr (site : Site) (name : String)
  | var (site : Site) (name : String)
  | delete (site : Site) (operand : Expr)
  /-- The size of an array in one of its dimensions, which are counted from one. -/
  | dim (site : Site) (dimension : Int) (name : String)
  | forLoop (site : Site) (counter : String) (first : Expr) (down : Bool) (last body : Expr)
  /-- A function applied to at least one argument. -/
  | call (site : Site) (name : String) (args : List Expr)
  | letIn (site : Site) (group : LetGroup) (body : Expr)
  | ifThen (site : Site) (condition positive : Expr)
  | ifElse (site : Site) (condition positive negative : Expr)
  | matchWith (site : Site) (scrutinee : Expr) (clauses : List Clause)
  | new (site : Site) (ty : Ty)
  | whileLoop (site : Site) (condition body : Expr)

/-- A clause of a match: `pattern -> body`. -/
inductive Clause where
  | mk (site : Site) (pattern : Pattern) (body : Expr)

/-- The definitions of one `let`, joined by `and`. -/
inductive LetGroup where
  | mk (site : Site) (isRec : Bool) (defs : List Def)

inductive Def where
  /-- A function with at least one parameter and, perhaps, the type of its result. -/
  | function (site : Site) (name : String) (params : List Param) (result : Option Ty) (body : Expr)
  | constant (site : Site) (name : String) (ty : Option Ty) (body : Expr)
  /-- A mutable variable; the type is that of its contents. -/
  | mutableVar (site : Site) (name : String) (ty : Option Ty)
  /-- A mutable array with the sizes of its dimensions; the type is that of an element. -/
  | mutableArray (site : Site) (name : String) (dims : List Expr) (ty : Option Ty)

end

/-- A constructor of a user type with the types of its arguments. -/
structure ConstructorDef where
  site : Site
  name : String
  args : List Ty
deriving DecidableEq, Repr

/-- The definition of one user type. -/
structure TypeDef where
  site : Site
  name : String
  constructors : List ConstructorDef
deriving DecidableEq, Repr

/-- The definitions of one `type`, joined by `and`. -/
structure TypeGroup where
  site : Site
  defs : List TypeDef
deriving DecidableEq, Repr

inductive Definition where
  | lets (group : LetGroup)
  | types (group : TypeGroup)

structure Program where
  definitions : List Definition
  /-- The number of nodes; every node has a number below it. -/
  nodeCount : Nat

namespace Pattern

def site : Pattern → Site
  | .constr site _ _ | .const site _ | .var site _ => site

mutual

/-- The names that a pattern binds, from left to right, each with its site. -/
def bindings : Pattern → List (Site × String)
  | .constr _ _ args => bindingsOfList args
  | .const _ _ => []
  | .var site name => [(site, name)]

def bindingsOfList : List Pattern → List (Site × String)
  | [] => []
  | pattern :: rest => bindings pattern ++ bindingsOfList rest

end

end Pattern

def Expr.site : Expr → Site
  | .binary site _ _ _ | .unary site _ _ | .construct site _ _ | .element site _ _
  | .const site _ | .constr site _ | .var site _ | .delete site _ | .dim site _ _
  | .forLoop site _ _ _ _ _ | .call site _ _ | .letIn site _ _ | .ifThen site _ _
  | .ifElse site _ _ _ | .matchWith site _ _ | .new site _ | .whileLoop site _ _ => site

namespace Clause

def site : Clause → Site
  | .mk site _ _ => site

def pattern : Clause → Pattern
  | .mk _ pattern _ => pattern

def body : Clause → Expr
  | .mk _ _ body => body

end Clause

namespace LetGroup

def site : LetGroup → Site
  | .mk site _ _ => site

def isRec : LetGroup → Bool
  | .mk _ isRec _ => isRec

def defs : LetGroup → List Def
  | .mk _ _ defs => defs

end LetGroup

namespace Def

def site : Def → Site
  | .function site _ _ _ _ | .constant site _ _ _ | .mutableVar site _ _
  | .mutableArray site _ _ _ => site

def name : Def → String
  | .function _ name _ _ _ | .constant _ name _ _ | .mutableVar _ name _
  | .mutableArray _ name _ _ => name

/-- The type of a function, if all its parameters and its result have one. -/
def functionType? (params : List Param) (result : Option Ty) : Option Ty :=
  match result, params.mapM Param.ty with
  | some result, some params => some (Ty.curried params result)
  | _, _ => none

/-- The type that the source gives to the name of a definition. -/
def declaredType? : Def → Option Ty
  | .function _ _ params result _ => functionType? params result
  | .constant _ _ ty _ => ty
  | .mutableVar _ _ ty => ty.map Ty.ref
  | .mutableArray _ _ dims ty => ty.map fun ty => Ty.array ty dims.length

end Def

def Definition.site : Definition → Site
  | .lets group => group.site
  | .types group => group.site

/-- The let groups among definitions, in order. -/
def letGroupsOf (ds : List Definition) : List LetGroup :=
  ds.filterMap fun
    | .lets group => some group
    | .types _ => none

/-- The type groups among definitions, in order. -/
def typeGroupsOf (ds : List Definition) : List TypeGroup :=
  ds.filterMap fun
    | .types group => some group
    | .lets _ => none

namespace Program

def letGroups (program : Program) : List LetGroup := letGroupsOf program.definitions

def typeGroups (program : Program) : List TypeGroup := typeGroupsOf program.definitions

end Program

end Llama
