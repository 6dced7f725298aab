import Llama.Tree.Basic

/-!
# Induction on trees

An expression contains others directly, in lists, in clauses and in the definitions of a let
group. `TreeCases E D` lists what has to be shown, form by form, so that `E` holds of every
expression and `D` of every definition.
-/

namespace Llama.Proofs

/-- `E` and `D` are handed up from the parts of each form of expression and definition. -/
structure TreeCases (E : Expr → Prop) (D : Def → Prop) : Prop where
  binary : ∀ site op left right, E left → E right → E (.binary site op left right)
  unary : ∀ site op operand, E operand → E (.unary site op operand)
  construct : ∀ site name args, (∀ e ∈ args, E e) → E (.construct site name args)
  element : ∀ site name indices, (∀ e ∈ indices, E e) → E (.element site name indices)
  const : ∀ site value, E (.const site value)
  constr : ∀ site name, E (.constr site name)
  var : ∀ site name, E (.var site name)
  delete : ∀ site operand, E operand → E (.delete site operand)
  dim : ∀ site dimension name, E (.dim site dimension name)
  forLoop : ∀ site counter first down last body, E first → E last → E body →
    E (.forLoop site counter first down last body)
  call : ∀ site name args, (∀ e ∈ args, E e) → E (.call site name args)
  letIn : ∀ site group body, (∀ d ∈ group.defs, D d) → E body → E (.letIn site group body)
  ifThen : ∀ site condition positive, E condition → E positive →
    E (.ifThen site condition positive)
  ifElse : ∀ site condition positive negative, E condition → E positive → E negative →
    E (.ifElse site condition positive negative)
  matchWith : ∀ site scrutinee clauses, E scrutinee → (∀ c ∈ clauses, E c.body) →
    E (.matchWith site scrutinee clauses)
  new : ∀ site ty, E (.new site ty)
  whileLoop : ∀ site condition body, E condition → E body → E (.whileLoop site condition body)
  function : ∀ site name params result body, E body →
    D (.function site name params result body)
  constant : ∀ site name ty body, E body → D (.constant site name ty body)
  mutableVar : ∀ site name ty, D (.mutableVar site name ty)
  mutableArray : ∀ site name dims ty, (∀ e ∈ dims, E e) → D (.mutableArray site name dims ty)

namespace TreeCases

variable {E : Expr → Prop} {D : Def → Prop}

mutual

/-- What holds of every form of expression holds of every expression. -/
theorem expr (h : TreeCases E D) : ∀ e, E e
  | .binary site op left right => h.binary site op left right (h.expr left) (h.expr right)
  | .unary site op operand => h.unary site op operand (h.expr operand)
  | .construct site name args => h.construct site name args (h.exprs args)
  | .element site name indices => h.element site name indices (h.exprs indices)
  | .const site value => h.const site value
  | .constr site name => h.constr site name
  | .var site name => h.var site name
  | .delete site operand => h.delete site operand (h.expr operand)
  | .dim site dimension name => h.dim site dimension name
  | .forLoop site counter first down last body =>
    h.forLoop site counter first down last body (h.expr first) (h.expr last) (h.expr body)
  | .call site name args => h.call site name args (h.exprs args)
  | .letIn site group body => h.letIn site group body (h.group group) (h.expr body)
  | .ifThen site condition positive =>
    h.ifThen site condition positive (h.expr condition) (h.expr positive)
  | .ifElse site condition positive negative =>
    h.ifElse site condition positive negative (h.expr condition) (h.expr positive)
      (h.expr negative)
  | .matchWith site scrutinee clauses =>
    h.matchWith site scrutinee clauses (h.expr scrutinee) (h.clauses clauses)
  | .new site ty => h.new site ty
  | .whileLoop site condition body =>
    h.whileLoop site condition body (h.expr condition) (h.expr body)

theorem exprs (h : TreeCases E D) : ∀ es : List Expr, ∀ e ∈ es, E e
  | [] => by simp
  | e :: rest => List.forall_mem_cons.mpr ⟨h.expr e, h.exprs rest⟩

theorem clauses (h : TreeCases E D) : ∀ cs : List Clause, ∀ c ∈ cs, E c.body
  | [] => by simp
  | .mk _ _ body :: rest => List.forall_mem_cons.mpr ⟨h.expr body, h.clauses rest⟩

theorem group (h : TreeCases E D) : ∀ g : LetGroup, ∀ d ∈ g.defs, D d
  | .mk _ _ defs => h.defs defs

theorem defs (h : TreeCases E D) : ∀ ds : List Def, ∀ d ∈ ds, D d
  | [] => by simp
  | d :: rest => List.forall_mem_cons.mpr ⟨h.definition d, h.defs rest⟩

/-- What holds of every form of definition holds of every definition. -/
theorem definition (h : TreeCases E D) : ∀ d, D d
  | .function site name params result body =>
    h.function site name params result body (h.expr body)
  | .constant site name ty body => h.constant site name ty body (h.expr body)
  | .mutableVar site name ty => h.mutableVar site name ty
  | .mutableArray site name dims ty => h.mutableArray site name dims ty (h.exprs dims)

end

end TreeCases

/-- `P` is handed up from the parts of each form of pattern. -/
structure PatternCases (P : Pattern → Prop) : Prop where
  constr : ∀ site name args, (∀ p ∈ args, P p) → P (.constr site name args)
  const : ∀ site value, P (.const site value)
  var : ∀ site name, P (.var site name)

namespace PatternCases

variable {P : Pattern → Prop}

mutual

/-- What holds of every form of pattern holds of every pattern. -/
theorem pattern (h : PatternCases P) : ∀ p, P p
  | .constr site name args => h.constr site name args (h.patterns args)
  | .const site value => h.const site value
  | .var site name => h.var site name

theorem patterns (h : PatternCases P) : ∀ ps : List Pattern, ∀ p ∈ ps, P p
  | [] => by simp
  | p :: rest => List.forall_mem_cons.mpr ⟨h.pattern p, h.patterns rest⟩

end

end PatternCases

end Llama.Proofs
