import Llama.Proofs.TreeInduction
import Mathlib.Tactic.Common

/-!
# Trees with other numbers

`shiftDefinition k d` is the definition `d` with the numbers of all its nodes increased by `k`. The
spans stay as they are.
-/

namespace Llama.Proofs

def shiftSite (k : Nat) (site : Site) : Site := { site with id := site.id + k }

@[simp] lemma span_shiftSite (k : Nat) (site : Site) : (shiftSite k site).span = site.span := rfl

mutual

@[simp]
def shiftPattern (k : Nat) : Pattern → Pattern
  | .constr site name args => .constr (shiftSite k site) name (shiftPatterns k args)
  | .const site value => .const (shiftSite k site) value
  | .var site name => .var (shiftSite k site) name

@[simp]
def shiftPatterns (k : Nat) : List Pattern → List Pattern
  | [] => []
  | p :: rest => shiftPattern k p :: shiftPatterns k rest

end

def shiftParam (k : Nat) (p : Param) : Param := { p with site := shiftSite k p.site }

mutual

/-- An expression with the numbers of all its nodes increased. -/
@[simp]
def shiftExpr (k : Nat) : Expr → Expr
  | .binary site op left right =>
    .binary (shiftSite k site) op (shiftExpr k left) (shiftExpr k right)
  | .unary site op operand => .unary (shiftSite k site) op (shiftExpr k operand)
  | .construct site name args => .construct (shiftSite k site) name (shiftExprs k args)
  | .element site name indices => .element (shiftSite k site) name (shiftExprs k indices)
  | .const site value => .const (shiftSite k site) value
  | .constr site name => .constr (shiftSite k site) name
  | .var site name => .var (shiftSite k site) name
  | .delete site operand => .delete (shiftSite k site) (shiftExpr k operand)
  | .dim site dimension name => .dim (shiftSite k site) dimension name
  | .forLoop site counter first down last body =>
    .forLoop (shiftSite k site) counter (shiftExpr k first) down (shiftExpr k last)
      (shiftExpr k body)
  | .call site name args => .call (shiftSite k site) name (shiftExprs k args)
  | .letIn site group body => .letIn (shiftSite k site) (shiftGroup k group) (shiftExpr k body)
  | .ifThen site condition positive =>
    .ifThen (shiftSite k site) (shiftExpr k condition) (shiftExpr k positive)
  | .ifElse site condition positive negative =>
    .ifElse (shiftSite k site) (shiftExpr k condition) (shiftExpr k positive)
      (shiftExpr k negative)
  | .matchWith site scrutinee clauses =>
    .matchWith (shiftSite k site) (shiftExpr k scrutinee) (shiftClauses k clauses)
  | .new site ty => .new (shiftSite k site) ty
  | .whileLoop site condition body =>
    .whileLoop (shiftSite k site) (shiftExpr k condition) (shiftExpr k body)

@[simp]
def shiftExprs (k : Nat) : List Expr → List Expr
  | [] => []
  | e :: rest => shiftExpr k e :: shiftExprs k rest

@[simp]
def shiftClauses (k : Nat) : List Clause → List Clause
  | [] => []
  | .mk site pattern body :: rest =>
    .mk (shiftSite k site) (shiftPattern k pattern) (shiftExpr k body) :: shiftClauses k rest

@[simp]
def shiftGroup (k : Nat) : LetGroup → LetGroup
  | .mk site isRec defs => .mk (shiftSite k site) isRec (shiftDefs k defs)

@[simp]
def shiftDefs (k : Nat) : List Def → List Def
  | [] => []
  | d :: rest => shiftDef k d :: shiftDefs k rest

@[simp]
def shiftDef (k : Nat) : Def → Def
  | .function site name params result body =>
    .function (shiftSite k site) name (params.map (shiftParam k)) result (shiftExpr k body)
  | .constant site name ty body => .constant (shiftSite k site) name ty (shiftExpr k body)
  | .mutableVar site name ty => .mutableVar (shiftSite k site) name ty
  | .mutableArray site name dims ty =>
    .mutableArray (shiftSite k site) name (shiftExprs k dims) ty

end

def shiftConstructor (k : Nat) (c : ConstructorDef) : ConstructorDef :=
  { c with site := shiftSite k c.site }

def shiftTypeDef (k : Nat) (d : TypeDef) : TypeDef :=
  { d with site := shiftSite k d.site, constructors := d.constructors.map (shiftConstructor k) }

def shiftTypeGroup (k : Nat) (g : TypeGroup) : TypeGroup :=
  { g with site := shiftSite k g.site, defs := g.defs.map (shiftTypeDef k) }

/-- A definition with the numbers of all its nodes increased. -/
def shiftDefinition (k : Nat) : Definition → Definition
  | .lets group => .lets (shiftGroup k group)
  | .types group => .types (shiftTypeGroup k group)

def shiftClause (k : Nat) : Clause → Clause
  | .mk site pattern body => .mk (shiftSite k site) (shiftPattern k pattern) (shiftExpr k body)

section

variable {k : Nat}

lemma shiftPatterns_eq_map (ps : List Pattern) : shiftPatterns k ps = ps.map (shiftPattern k) := by
  induction ps with
  | nil => rfl
  | cons p ps ih => rw [shiftPatterns, ih, List.map_cons]

lemma shiftExprs_eq_map (es : List Expr) : shiftExprs k es = es.map (shiftExpr k) := by
  induction es with
  | nil => rfl
  | cons e es ih => rw [shiftExprs, ih, List.map_cons]

lemma shiftClauses_eq_map (cs : List Clause) : shiftClauses k cs = cs.map (shiftClause k) := by
  induction cs with
  | nil => rfl
  | cons c cs ih =>
    obtain ⟨site, pattern, body⟩ := c
    rw [shiftClauses, ih, List.map_cons]
    rfl

lemma shiftDefs_eq_map (ds : List Def) : shiftDefs k ds = ds.map (shiftDef k) := by
  induction ds with
  | nil => rfl
  | cons d ds ih => rw [shiftDefs, ih, List.map_cons]

@[simp] lemma span_shiftPattern (p : Pattern) : (shiftPattern k p).site.span = p.site.span := by
  cases p <;> simp [Pattern.site]

@[simp] lemma span_shiftExpr (e : Expr) : (shiftExpr k e).site.span = e.site.span := by
  cases e <;> simp [Expr.site]

@[simp] lemma span_shiftGroup (g : LetGroup) : (shiftGroup k g).site.span = g.site.span := by
  cases g
  simp [LetGroup.site]

end

/-! ### Nothing is added -/

lemma map_eq_self {α : Type} {f : α → α} {l : List α} (h : ∀ a ∈ l, f a = a) : l.map f = l :=
  (List.map_congr_left h).trans (List.map_id _)

@[simp] lemma shiftSite_zero (site : Site) : shiftSite 0 site = site := rfl

lemma pattern_shift_zero : PatternCases fun p => shiftPattern 0 p = p where
  constr site name args h := by
    rw [shiftPattern, shiftPatterns_eq_map, map_eq_self h, shiftSite_zero]
  const _ _ := by simp
  var _ _ := by simp

lemma shiftExprs_zero {es : List Expr} (h : ∀ e ∈ es, shiftExpr 0 e = e) :
    shiftExprs 0 es = es := by
  rw [shiftExprs_eq_map, map_eq_self h]

lemma shiftGroup_zero {g : LetGroup} (h : ∀ d ∈ g.defs, shiftDef 0 d = d) :
    shiftGroup 0 g = g := by
  obtain ⟨site, isRec, ds⟩ := g
  have hdefs : ds.map (shiftDef 0) = ds := map_eq_self h
  rw [shiftGroup, shiftDefs_eq_map, hdefs, shiftSite_zero]

lemma shiftClauses_zero {cs : List Clause} (h : ∀ c ∈ cs, shiftExpr 0 c.body = c.body) :
    shiftClauses 0 cs = cs := by
  rw [shiftClauses_eq_map]
  refine map_eq_self fun c hc => ?_
  have hbody := h c hc
  obtain ⟨site, pattern, body⟩ := c
  rw [shiftClause, pattern_shift_zero.pattern pattern, shiftSite_zero]
  exact congrArg _ hbody

lemma tree_shift_zero : TreeCases (fun e => shiftExpr 0 e = e) (fun d => shiftDef 0 d = d) where
  binary _ _ _ _ hl hr := by simp [hl, hr]
  unary _ _ _ h := by simp [h]
  construct _ _ _ h := by simp [shiftExprs_zero h]
  element _ _ _ h := by simp [shiftExprs_zero h]
  const _ _ := by simp
  constr _ _ := by simp
  var _ _ := by simp
  delete _ _ h := by simp [h]
  dim _ _ _ := by simp
  forLoop _ _ _ _ _ _ hf hl hb := by simp [hf, hl, hb]
  call _ _ _ h := by simp [shiftExprs_zero h]
  letIn _ _ _ hg hb := by simp [shiftGroup_zero hg, hb]
  ifThen _ _ _ hc hp := by simp [hc, hp]
  ifElse _ _ _ _ hc hp hn := by simp [hc, hp, hn]
  matchWith _ _ _ hs hc := by simp [hs, shiftClauses_zero hc]
  new _ _ := by simp
  whileLoop _ _ _ hc hb := by simp [hc, hb]
  function _ _ params _ _ hb := by
    have hparams : params.map (shiftParam 0) = params := map_eq_self fun _ _ => rfl
    simp [hparams, hb]
  constant _ _ _ _ hb := by simp [hb]
  mutableVar _ _ _ := by simp
  mutableArray _ _ _ _ hd := by simp [shiftExprs_zero hd]

lemma shiftTypeDef_zero (d : TypeDef) : shiftTypeDef 0 d = d := by
  have hconstructors : d.constructors.map (shiftConstructor 0) = d.constructors :=
    map_eq_self fun _ _ => rfl
  rw [shiftTypeDef, hconstructors, shiftSite_zero]

lemma shiftDefinition_zero (d : Definition) : shiftDefinition 0 d = d := by
  cases d with
  | lets group => exact congrArg _ (shiftGroup_zero (tree_shift_zero.group group))
  | types group =>
    have hdefs : group.defs.map (shiftTypeDef 0) = group.defs :=
      map_eq_self fun d _ => shiftTypeDef_zero d
    rw [shiftDefinition, shiftTypeGroup, hdefs, shiftSite_zero]

end Llama.Proofs
