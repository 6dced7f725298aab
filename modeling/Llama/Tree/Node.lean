import Llama.Tree.Basic

/-!
# The nodes of a tree

All nodes of a program in one list, children before their parents and siblings in the order of
the source.
-/

namespace Llama

/-- A node of any sort. -/
inductive Node where
  | letGroup (group : LetGroup)
  | definition (definition : Def)
  | param (param : Param)
  | expr (expr : Expr)
  | clause (clause : Clause)
  | pattern (pattern : Pattern)
  | typeGroup (group : TypeGroup)
  | typeDef (definition : TypeDef)
  | constructor (constructor : ConstructorDef)

namespace Node

def site : Node → Site
  | .letGroup g => g.site
  | .definition d => d.site
  | .param p => p.site
  | .expr e => e.site
  | .clause c => c.site
  | .pattern p => p.site
  | .typeGroup g => g.site
  | .typeDef d => d.site
  | .constructor c => c.site

def exprChildren : Expr → List Node
  | .binary _ _ left right => [.expr left, .expr right]
  | .unary _ _ operand => [.expr operand]
  | .construct _ _ args => args.map .expr
  | .element _ _ indices => indices.map .expr
  | .const _ _ | .constr _ _ | .var _ _ | .dim _ _ _ | .new _ _ => []
  | .delete _ operand => [.expr operand]
  | .forLoop _ _ first _ last body => [.expr first, .expr last, .expr body]
  | .call _ _ args => args.map .expr
  | .letIn _ group body => [.letGroup group, .expr body]
  | .ifThen _ condition positive => [.expr condition, .expr positive]
  | .ifElse _ condition positive negative => [.expr condition, .expr positive, .expr negative]
  | .matchWith _ scrutinee clauses => .expr scrutinee :: clauses.map .clause
  | .whileLoop _ condition body => [.expr condition, .expr body]

def defChildren : Def → List Node
  | .function _ _ params _ body => params.map .param ++ [.expr body]
  | .constant _ _ _ body => [.expr body]
  | .mutableVar _ _ _ => []
  | .mutableArray _ _ dims _ => dims.map .expr

/-- The nodes directly below a node, in the order of the source. -/
def children : Node → List Node
  | .letGroup g => g.defs.map .definition
  | .definition d => defChildren d
  | .param _ => []
  | .expr e => exprChildren e
  | .clause c => [.pattern c.pattern, .expr c.body]
  | .pattern (.constr _ _ args) => args.map .pattern
  | .pattern _ => []
  | .typeGroup g => g.defs.map .typeDef
  | .typeDef d => d.constructors.map .constructor
  | .constructor _ => []

end Node

namespace Pattern

mutual

def nodes : Pattern → List Node
  | .constr site name args => nodesOfList args ++ [.pattern (.constr site name args)]
  | .const site value => [.pattern (.const site value)]
  | .var site name => [.pattern (.var site name)]

def nodesOfList : List Pattern → List Node
  | [] => []
  | pattern :: rest => nodes pattern ++ nodesOfList rest

end

end Pattern

mutual

/-- The nodes of an expression, the expression itself last. -/
def Expr.nodes : Expr → List Node
  | e@(.binary _ _ left right) => left.nodes ++ right.nodes ++ [.expr e]
  | e@(.unary _ _ operand) => operand.nodes ++ [.expr e]
  | e@(.construct _ _ args) => Expr.nodesOfList args ++ [.expr e]
  | e@(.element _ _ indices) => Expr.nodesOfList indices ++ [.expr e]
  | e@(.const _ _) => [.expr e]
  | e@(.constr _ _) => [.expr e]
  | e@(.var _ _) => [.expr e]
  | e@(.delete _ operand) => operand.nodes ++ [.expr e]
  | e@(.dim _ _ _) => [.expr e]
  | e@(.forLoop _ _ first _ last body) => first.nodes ++ last.nodes ++ body.nodes ++ [.expr e]
  | e@(.call _ _ args) => Expr.nodesOfList args ++ [.expr e]
  | e@(.letIn _ group body) => group.nodes ++ body.nodes ++ [.expr e]
  | e@(.ifThen _ condition positive) => condition.nodes ++ positive.nodes ++ [.expr e]
  | e@(.ifElse _ condition positive negative) =>
    condition.nodes ++ positive.nodes ++ negative.nodes ++ [.expr e]
  | e@(.matchWith _ scrutinee clauses) =>
    scrutinee.nodes ++ Clause.nodesOfList clauses ++ [.expr e]
  | e@(.new _ _) => [.expr e]
  | e@(.whileLoop _ condition body) => condition.nodes ++ body.nodes ++ [.expr e]

def Expr.nodesOfList : List Expr → List Node
  | [] => []
  | expr :: rest => expr.nodes ++ Expr.nodesOfList rest

def Clause.nodes : Clause → List Node
  | .mk site pattern body => pattern.nodes ++ body.nodes ++ [.clause (.mk site pattern body)]

def Clause.nodesOfList : List Clause → List Node
  | [] => []
  | clause :: rest => clause.nodes ++ Clause.nodesOfList rest

def LetGroup.nodes : LetGroup → List Node
  | .mk site isRec defs => Def.nodesOfList defs ++ [.letGroup (.mk site isRec defs)]

def Def.nodes : Def → List Node
  | d@(.function _ _ params _ body) => params.map .param ++ body.nodes ++ [.definition d]
  | d@(.constant _ _ _ body) => body.nodes ++ [.definition d]
  | d@(.mutableVar _ _ _) => [.definition d]
  | d@(.mutableArray _ _ dims _) => Expr.nodesOfList dims ++ [.definition d]

def Def.nodesOfList : List Def → List Node
  | [] => []
  | definition :: rest => definition.nodes ++ Def.nodesOfList rest

end

def TypeDef.nodes (definition : TypeDef) : List Node :=
  definition.constructors.map .constructor ++ [.typeDef definition]

def TypeGroup.nodes (group : TypeGroup) : List Node :=
  group.defs.flatMap TypeDef.nodes ++ [.typeGroup group]

def Definition.nodes : Definition → List Node
  | .lets group => group.nodes
  | .types group => group.nodes

def Program.nodes (program : Program) : List Node :=
  program.definitions.flatMap Definition.nodes

end Llama
