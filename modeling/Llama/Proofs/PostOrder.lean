import Llama.Proofs.TreeInduction
import Llama.Tree.Node
import Mathlib.Tactic.Common

/-!
# Post-order

The nodes of a program are listed in post-order: what lies below a node comes just before it, and
siblings come in the order of the source.
-/

namespace Llama.Proofs

/-- The numbers of nodes. -/
def numbers (nodes : List Node) : List NodeId := nodes.map fun n => n.site.id

@[simp] lemma numbers_nil : numbers [] = [] := rfl

@[simp] lemma numbers_cons (n : Node) (nodes : List Node) :
    numbers (n :: nodes) = n.site.id :: numbers nodes := rfl

@[simp] lemma numbers_append (nodes nodes' : List Node) :
    numbers (nodes ++ nodes') = numbers nodes ++ numbers nodes' := List.map_append

/-- The second list holds the trees with the given roots, each node after its children. -/
inductive PostOrder : List Node → List Node → Prop
  | nil : PostOrder [] []
  | cons {n : Node} {below roots later : List Node} :
      PostOrder n.children below → PostOrder roots later →
        PostOrder (n :: roots) (below ++ n :: later)

lemma PostOrder.root {n : Node} {below : List Node} (h : PostOrder n.children below) :
    PostOrder [n] (below ++ [n]) :=
  .cons h .nil

lemma PostOrder.leaf {n : Node} (h : n.children = []) : PostOrder [n] [n] := by
  have hroot : PostOrder n.children [] := h ▸ .nil
  exact hroot.root

lemma PostOrder.append {roots roots' listed listed' : List Node} (h : PostOrder roots listed)
    (h' : PostOrder roots' listed') : PostOrder (roots ++ roots') (listed ++ listed') := by
  induction h with
  | nil => exact h'
  | cons hbelow _ _ ih =>
    rw [List.append_assoc]
    exact .cons hbelow ih

lemma postOrder_map {α : Type} {node : α → Node} {nodes : α → List Node} {l : List α}
    (h : ∀ a ∈ l, PostOrder [node a] (nodes a)) : PostOrder (l.map node) (l.flatMap nodes) := by
  induction l with
  | nil => exact .nil
  | cons a l ih =>
    obtain ⟨ha, hl⟩ := List.forall_mem_cons.mp h
    exact ha.append (ih hl)

lemma postOrder_leaves {α : Type} {node : α → Node} (h : ∀ a, (node a).children = [])
    (l : List α) : PostOrder (l.map node) (l.map node) := by
  induction l with
  | nil => exact .nil
  | cons a l ih => exact (PostOrder.leaf (h a)).append ih

lemma patternNodes_eq_flatMap (ps : List Pattern) :
    Pattern.nodesOfList ps = ps.flatMap Pattern.nodes := by
  induction ps with
  | nil => simp [Pattern.nodesOfList]
  | cons p ps ih => simp [Pattern.nodesOfList, ih]

lemma exprNodes_eq_flatMap (es : List Expr) : Expr.nodesOfList es = es.flatMap Expr.nodes := by
  induction es with
  | nil => simp [Expr.nodesOfList]
  | cons e es ih => simp [Expr.nodesOfList, ih]

lemma clauseNodes_eq_flatMap (cs : List Clause) :
    Clause.nodesOfList cs = cs.flatMap Clause.nodes := by
  induction cs with
  | nil => simp [Clause.nodesOfList]
  | cons c cs ih => simp [Clause.nodesOfList, ih]

lemma defNodes_eq_flatMap (ds : List Def) : Def.nodesOfList ds = ds.flatMap Def.nodes := by
  induction ds with
  | nil => simp [Def.nodesOfList]
  | cons d ds ih => simp [Def.nodesOfList, ih]

lemma pattern_postOrder : PatternCases fun p => PostOrder [.pattern p] p.nodes where
  constr _ _ args ih := by
    rw [Pattern.nodes, patternNodes_eq_flatMap]
    exact .root (postOrder_map ih)
  const _ _ := .leaf rfl
  var _ _ := .leaf rfl

lemma postOrder_exprs {es : List Expr} (h : ∀ e ∈ es, PostOrder [.expr e] e.nodes) :
    PostOrder (es.map .expr) (Expr.nodesOfList es) := by
  rw [exprNodes_eq_flatMap]
  exact postOrder_map h

lemma postOrder_clauses {cs : List Clause}
    (h : ∀ c ∈ cs, PostOrder [.expr c.body] c.body.nodes) :
    PostOrder (cs.map .clause) (Clause.nodesOfList cs) := by
  rw [clauseNodes_eq_flatMap]
  refine postOrder_map fun c hc => ?_
  obtain ⟨site, pattern, body⟩ := c
  exact .root ((pattern_postOrder.pattern pattern).append (h _ hc))

lemma postOrder_group {g : LetGroup} (h : ∀ d ∈ g.defs, PostOrder [.definition d] d.nodes) :
    PostOrder [.letGroup g] g.nodes := by
  obtain ⟨site, isRec, defs⟩ := g
  rw [LetGroup.nodes, defNodes_eq_flatMap]
  exact .root (postOrder_map h)

lemma tree_postOrder : TreeCases (fun e => PostOrder [.expr e] e.nodes)
    (fun d => PostOrder [.definition d] d.nodes) where
  binary _ _ _ _ hl hr := .root (hl.append hr)
  unary _ _ _ h := .root h
  construct _ _ _ h := .root (postOrder_exprs h)
  element _ _ _ h := .root (postOrder_exprs h)
  const _ _ := .leaf rfl
  constr _ _ := .leaf rfl
  var _ _ := .leaf rfl
  delete _ _ h := .root h
  dim _ _ _ := .leaf rfl
  forLoop _ _ _ _ _ _ hf hl hb := .root ((hf.append hl).append hb)
  call _ _ _ h := .root (postOrder_exprs h)
  letIn _ _ _ hg hb := .root ((postOrder_group hg).append hb)
  ifThen _ _ _ hc hp := .root (hc.append hp)
  ifElse _ _ _ _ hc hp hn := .root ((hc.append hp).append hn)
  matchWith _ _ _ hs hc := .root (hs.append (postOrder_clauses hc))
  new _ _ := .leaf rfl
  whileLoop _ _ _ hc hb := .root (hc.append hb)
  function _ _ params _ _ hb := .root ((postOrder_leaves (fun _ => rfl) params).append hb)
  constant _ _ _ _ hb := .root hb
  mutableVar _ _ _ := .leaf rfl
  mutableArray _ _ _ _ h := .root (postOrder_exprs h)

lemma postOrder_typeGroup (group : TypeGroup) : PostOrder [.typeGroup group] group.nodes :=
  .root (postOrder_map fun d _ => .root (postOrder_leaves (fun _ => rfl) d.constructors))

/-- A definition at the top of a program as a node. -/
def definitionNode : Definition → Node
  | .lets group => .letGroup group
  | .types group => .typeGroup group

/-- The nodes of a program are listed in post-order. -/
lemma program_postOrder (program : Program) :
    PostOrder (program.definitions.map definitionNode) program.nodes := by
  refine postOrder_map fun d _ => ?_
  cases d with
  | lets group => exact postOrder_group (tree_postOrder.group group)
  | types group => exact postOrder_typeGroup group

end Llama.Proofs
