import Llama.Proofs.TreeInduction
import Mathlib.Tactic.Common

/-!
# Trees without sites

Two trees that differ only in the numbers and spans of their nodes have the same bare tree.
-/

namespace Llama.Proofs

mutual

@[simp]
def barePattern : Pattern → Pattern
  | .constr _ name args => .constr default name (barePatterns args)
  | .const _ value => .const default value
  | .var _ name => .var default name

@[simp]
def barePatterns : List Pattern → List Pattern
  | [] => []
  | p :: rest => barePattern p :: barePatterns rest

end

def bareParam (p : Param) : Param := { p with site := default }

mutual

/-- An expression with the numbers and spans of all its nodes forgotten. -/
@[simp]
def bareExpr : Expr → Expr
  | .binary _ op left right => .binary default op (bareExpr left) (bareExpr right)
  | .unary _ op operand => .unary default op (bareExpr operand)
  | .construct _ name args => .construct default name (bareExprs args)
  | .element _ name indices => .element default name (bareExprs indices)
  | .const _ value => .const default value
  | .constr _ name => .constr default name
  | .var _ name => .var default name
  | .delete _ operand => .delete default (bareExpr operand)
  | .dim _ dimension name => .dim default dimension name
  | .forLoop _ counter first down last body =>
    .forLoop default counter (bareExpr first) down (bareExpr last) (bareExpr body)
  | .call _ name args => .call default name (bareExprs args)
  | .letIn _ group body => .letIn default (bareGroup group) (bareExpr body)
  | .ifThen _ condition positive => .ifThen default (bareExpr condition) (bareExpr positive)
  | .ifElse _ condition positive negative =>
    .ifElse default (bareExpr condition) (bareExpr positive) (bareExpr negative)
  | .matchWith _ scrutinee clauses =>
    .matchWith default (bareExpr scrutinee) (bareClauses clauses)
  | .new _ ty => .new default ty
  | .whileLoop _ condition body => .whileLoop default (bareExpr condition) (bareExpr body)

@[simp]
def bareExprs : List Expr → List Expr
  | [] => []
  | e :: rest => bareExpr e :: bareExprs rest

@[simp]
def bareClauses : List Clause → List Clause
  | [] => []
  | .mk _ pattern body :: rest =>
    .mk default (barePattern pattern) (bareExpr body) :: bareClauses rest

@[simp]
def bareGroup : LetGroup → LetGroup
  | .mk _ isRec defs => .mk default isRec (bareDefs defs)

@[simp]
def bareDefs : List Def → List Def
  | [] => []
  | d :: rest => bareDef d :: bareDefs rest

@[simp]
def bareDef : Def → Def
  | .function _ name params result body =>
    .function default name (params.map bareParam) result (bareExpr body)
  | .constant _ name ty body => .constant default name ty (bareExpr body)
  | .mutableVar _ name ty => .mutableVar default name ty
  | .mutableArray _ name dims ty => .mutableArray default name (bareExprs dims) ty

end

def bareConstructor (c : ConstructorDef) : ConstructorDef := { c with site := default }

def bareTypeDef (d : TypeDef) : TypeDef :=
  { d with site := default, constructors := d.constructors.map bareConstructor }

def bareTypeGroup (g : TypeGroup) : TypeGroup :=
  { g with site := default, defs := g.defs.map bareTypeDef }

/-- A definition with the numbers and spans of all its nodes forgotten. -/
def bareDefinition : Definition → Definition
  | .lets group => .lets (bareGroup group)
  | .types group => .types (bareTypeGroup group)

lemma barePatterns_eq_map (ps : List Pattern) : barePatterns ps = ps.map barePattern := by
  induction ps with
  | nil => rfl
  | cons p ps ih => rw [barePatterns, ih, List.map_cons]

lemma bareExprs_eq_map (es : List Expr) : bareExprs es = es.map bareExpr := by
  induction es with
  | nil => rfl
  | cons e es ih => rw [bareExprs, ih, List.map_cons]

def bareClause (c : Clause) : Clause :=
  .mk default (barePattern c.pattern) (bareExpr c.body)

lemma bareClauses_eq_map (cs : List Clause) : bareClauses cs = cs.map bareClause := by
  induction cs with
  | nil => rfl
  | cons c cs ih =>
    obtain ⟨site, pattern, body⟩ := c
    rw [bareClauses, ih, List.map_cons]
    rfl

lemma bareDefs_eq_map (ds : List Def) : bareDefs ds = ds.map bareDef := by
  induction ds with
  | nil => rfl
  | cons d ds ih => rw [bareDefs, ih, List.map_cons]

end Llama.Proofs
