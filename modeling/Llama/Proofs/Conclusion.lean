import Llama.Proofs.AnalysisCompleteness

/-!
# Concluding an analysis

Whatever types a solver finds, they end up in the slots of the nodes whose primary placeholders
they solve and nowhere else, and no slot has to be added for them. The definitions that are
checked at the end are those of mutable variables and arrays without annotation, in the order in
which the walk comes to them, which is the order of their numbers.
-/

namespace Llama.Proofs

open Analyzer

variable {α β : Type} {m : Analyzer α} {f : α → Analyzer β} {n : Node}

section

variable {s : TypeSlots} {node : NodeId}

lemma growTo_of_lt (h : node < s.size) : s.growTo node = s := by
  have hnone : node + 1 - s.slots.size = 0 := Nat.sub_eq_zero_of_le h
  rw [TypeSlots.growTo, hnone]
  simp

/-- An empty slot that is there takes the type, and all others stay as they are. -/
lemma set_of_lt (h : node < s.size) (hempty : s.get? node = none) (ty : Ty) (id : NodeId) :
    (s.set node ty).2.size = s.size ∧
      (s.set node ty).2.get? id = if id = node then some ty else s.get? id := by
  have hwrite : (s.set node ty).2 = ⟨s.slots.setIfInBounds node (some ty)⟩ := by
    rw [TypeSlots.set, growTo_of_lt h, hempty]
  have hbound : node < s.slots.size := h
  rw [hwrite]
  refine ⟨Array.size_setIfInBounds, ?_⟩
  unfold TypeSlots.get?
  by_cases hid : id = node
  · subst hid
    simp [hbound]
  · have hother : node ≠ id := Ne.symm hid
    simp [hid, hother]

lemma get?_ofCount (count : Nat) (id : NodeId) : (TypeSlots.ofCount count).get? id = none := by
  unfold TypeSlots.get? TypeSlots.ofCount
  rw [Array.getElem?_replicate]
  split <;> rfl

end

/-- Writes what a solution has for primary placeholders, one after the other. -/
def writeAll (solution : Solution) (temps : List Temp) (slots : TypeSlots) : TypeSlots :=
  temps.foldl (fun slots temp => temp.writeBack solution slots) slots

/-- When each node has at most one primary placeholder and a slot that is empty, every slot holds
in the end what the solution has for that placeholder. -/
lemma writeAll_spec (solution : Solution) {temps : List Temp} {slots : TypeSlots}
    (hdistinct : ((temps.filter Temp.primary).map Temp.node).Nodup)
    (hinside : ∀ temp ∈ temps, temp.primary = true → temp.node < slots.size)
    (hempty : ∀ temp ∈ temps, temp.primary = true → slots.get? temp.node = none) :
    (writeAll solution temps slots).size = slots.size ∧
    (∀ temp ∈ temps, temp.primary = true →
      (writeAll solution temps slots).get? temp.node = solution.get? temp.tag) ∧
    ∀ id, (∀ temp ∈ temps, temp.primary = true → temp.node ≠ id) →
      (writeAll solution temps slots).get? id = slots.get? id := by
  induction temps generalizing slots with
  | nil => exact ⟨rfl, fun _ h => absurd h List.not_mem_nil, fun _ _ => rfl⟩
  | cons temp temps ih =>
    obtain ⟨hinside₁, hinside⟩ := List.forall_mem_cons.mp hinside
    obtain ⟨hempty₁, hempty⟩ := List.forall_mem_cons.mp hempty
    cases hprimary : temp.primary with
    | false =>
      have hskip : writeAll solution (temp :: temps) slots = writeAll solution temps slots := by
        rw [writeAll, List.foldl_cons, Temp.writeBack, hprimary]
        rfl
      rw [List.filter_cons, hprimary] at hdistinct
      obtain ⟨hsize, hsolved, hothers⟩ := ih hdistinct hinside hempty
      rw [hskip]
      refine ⟨hsize, List.forall_mem_cons.mpr ⟨?_, hsolved⟩, fun id hid => ?_⟩
      · rw [hprimary]
        exact fun h => absurd h Bool.false_ne_true
      · exact hothers id (List.forall_mem_cons.mp hid).2
    | true =>
      rw [List.filter_cons, hprimary, if_pos rfl, List.map_cons, List.nodup_cons] at hdistinct
      obtain ⟨hfresh, hdistinct⟩ := hdistinct
      have hother : ∀ other ∈ temps, other.primary = true → other.node ≠ temp.node := by
        intro other hmem hother heq
        exact hfresh (heq ▸ List.mem_map_of_mem (List.mem_filter.mpr ⟨hmem, hother⟩))
      have hwrite : (temp.writeBack solution slots).size = slots.size ∧ ∀ id,
          (temp.writeBack solution slots).get? id =
            if id = temp.node then solution.get? temp.tag else slots.get? id := by
        unfold Temp.writeBack
        rw [hprimary]
        cases hfound : solution.get? temp.tag with
        | none =>
          refine ⟨rfl, fun id => ?_⟩
          by_cases hid : id = temp.node
          · rw [if_pos hid, hid]
            exact hempty₁ hprimary
          · rw [if_neg hid]
        | some ty =>
          have hset := set_of_lt (hinside₁ hprimary) (hempty₁ hprimary) ty
          exact ⟨(hset temp.node).1, fun id => (hset id).2⟩
      obtain ⟨hsize₁, hget⟩ := hwrite
      have hunwritten : ∀ other ∈ temps, other.primary = true →
          (temp.writeBack solution slots).get? other.node = none := by
        intro other hmem hprimary'
        rw [hget, if_neg (hother other hmem hprimary')]
        exact hempty other hmem hprimary'
      obtain ⟨hsize, hsolved, hothers⟩ :=
        ih hdistinct (fun other hmem h => hsize₁ ▸ hinside other hmem h) hunwritten
      refine ⟨hsize.trans hsize₁, List.forall_mem_cons.mpr ⟨fun _ => ?_, hsolved⟩, fun id hid => ?_⟩
      · have hkept := hothers temp.node hother
        rw [hget, if_pos rfl] at hkept
        exact hkept
      · obtain ⟨hne, hid⟩ := List.forall_mem_cons.mp hid
        have hkept := hothers id hid
        rw [hget, if_neg (Ne.symm (hne hprimary))] at hkept
        exact hkept

/-- The check that a node puts off: that of a mutable variable or array without annotation. -/
def openBinding? : Node → Option Obligation
  | .definition (.mutableVar site name none) => some ⟨site.id, name, site.span⟩
  | .definition (.mutableArray site name _ none) => some ⟨site.id, name, site.span⟩
  | _ => none

def openBindings (nodes : List Node) : List Obligation := nodes.filterMap openBinding?

/-- The step puts off the checks of the nodes, in their order, and no others. -/
def Defers (m : Analyzer α) (nodes : List Node) : Prop :=
  ∀ w, (m w).2.inference.pending.toList =
    w.inference.pending.toList ++ openBindings nodes

section

variable {nodes nodes' : List Node}

lemma defers_nil (h : ∀ w, (m w).2.inference.pending = w.inference.pending) : Defers m [] := by
  intro w
  rw [h w]
  exact (List.append_nil _).symm

lemma defers_bind (hm : Defers m nodes) (hf : ∀ a, Defers (f a) nodes') :
    Defers (m >>= f) (nodes ++ nodes') := by
  intro w
  rw [bind_run, hf _ _, hm w, openBindings, openBindings, openBindings, List.filterMap_append,
    List.append_assoc]

/-- A step that puts nothing off comes before others. -/
lemma defers_skip (hm : Defers m []) (hf : ∀ a, Defers (f a) nodes) : Defers (m >>= f) nodes :=
  defers_bind hm hf

/-- The last step that puts something off. -/
lemma defers_bind_last (hm : Defers m nodes) (hf : ∀ a, Defers (f a) []) :
    Defers (m >>= f) nodes := by
  have h := defers_bind hm hf
  rw [List.append_nil] at h
  exact h

/-- A node whose check is not put off. -/
lemma Defers.snoc (h : Defers m nodes) (hn : openBinding? n = none) : Defers m (nodes ++ [n]) := by
  have hsame : openBindings (nodes ++ [n]) = openBindings nodes := by
    simp [openBindings, hn]
  intro w
  rw [hsame]
  exact h w

lemma defers_leaf (h : Defers m []) (hn : openBinding? n = none) : Defers m [n] :=
  h.snoc hn

lemma defers_pure (a : α) : Defers (pure a) [] := defers_nil fun _ => rfl

lemma defers_silent (h : Silent m) : Defers m [] :=
  defers_nil fun w => by rw [(h w).1]

lemma pending_foldl_constrain (cs : List Constraint) (i : Inference) :
    (cs.foldl Inference.constrain i).pending = i.pending := by
  induction cs generalizing i with
  | nil => rfl
  | cons c cs ih => exact ih (i.constrain c)

lemma defers_emits {m : Analyzer Unit} {cs : List Constraint} (h : Emits m cs) : Defers m [] :=
  defers_nil fun w => by rw [h w]; exact pending_foldl_constrain cs w.inference

lemma defers_spec (target : Tag) (term : Term) : Defers (spec target term) [] :=
  defers_emits (emits_spec target term)

lemma defers_same (left right : Tag) : Defers (same left right) [] :=
  defers_emits (emits_same left right)

lemma pending_newTemp (i : Inference) (node : NodeId) (hint : Option Ty) (primary : Bool) :
    (i.newTemp node hint primary).2.pending = i.pending := by
  cases hint <;> rfl

lemma defers_tempFor (node : NodeId) (hint : Option Ty) : Defers (tempFor node hint) [] := by
  refine defers_nil fun w => ?_
  have hrun : (tempFor node hint w).2.inference = (w.inference.tempFor node hint).2 := rfl
  rw [hrun, Inference.tempFor]
  split
  · rfl
  · exact pending_newTemp w.inference node hint true

lemma defers_aux (node : NodeId) (hint : Option Ty) : Defers (aux node hint) [] :=
  defers_nil fun w => pending_newTemp w.inference node hint false

lemma defers_declare (scope : Env) (symbol : Symbol) : Defers (declare scope symbol) [] := by
  unfold declare
  cases Env.lookup? scope symbol.name with
  | none => exact defers_pure _
  | some previous => exact defers_skip (defers_silent (silent_report _)) fun _ => defers_pure _

lemma defers_resolveUse (env : Env) (name : String) (site : Site) :
    Defers (resolveUse env name site) [] := by
  unfold resolveUse
  cases Env.lookup? env name with
  | none => exact defers_skip (defers_silent (silent_report _)) fun _ => defers_pure _
  | some symbol =>
    obtain ⟨name', kind, ty, temp, span⟩ := symbol
    cases temp with
    | some tag => exact defers_pure _
    | none =>
      cases ty with
      | none => exact defers_pure _
      | some ty => exact defers_skip (defers_aux _ _) fun _ => defers_pure _

lemma defers_forSome {value : Option α} {step : α → Analyzer Unit}
    (h : ∀ a, Defers (step a) []) : Defers (forSome value step) [] := by
  cases value with
  | none => exact defers_pure ()
  | some a => exact h a

lemma defers_constrainUse {env : Env} {name : String} {site : Site} {step : Tag → Analyzer Unit}
    (h : ∀ tag, Defers (step tag) []) : Defers (constrainUse env name site step) [] :=
  defers_skip (defers_resolveUse env name site) fun _ => defers_forSome h

lemma defers_construct (target : Tag) (name : String) (args : List Tag) (span : Span) :
    Defers (construct target name args span) [] := by
  have hsilent : Silent (constructorOf name span) := by
    intro w
    rw [constructorOf_run]
    cases w.types.constructorWithin? name w.passed <;> exact ⟨rfl, rfl, rfl⟩
  rw [construct_eq]
  refine defers_skip (defers_silent hsilent) fun found => defers_forSome fun info => ?_
  refine defers_skip (defers_silent (silent_ite (silent_report _) (silent_pure ()))) fun _ => ?_
  refine defers_skip (defers_spec _ _) fun _ => ?_
  exact defers_emits (emits_forM (fun a : Tag × Ty => emits_spec a.1 a.2.toTerm) _)

end

lemma defers_patterns {ps : List Pattern}
    (h : ∀ p ∈ ps, ∀ scope, Defers (elaboratePattern p scope) p.nodes) (scope : Env) :
    Defers (elaboratePatterns ps scope) (Pattern.nodesOfList ps) := by
  induction ps generalizing scope with
  | nil => exact defers_pure _
  | cons p ps ih =>
    obtain ⟨hp, hps⟩ := List.forall_mem_cons.mp h
    refine defers_bind (hp scope) fun first => ?_
    exact defers_bind_last (ih hps first.2) fun _ => defers_pure _

lemma pattern_defers :
    PatternCases fun p => ∀ scope, Defers (elaboratePattern p scope) p.nodes where
  constr site name args ih scope := by
    refine defers_skip (defers_tempFor _ _) fun p => Defers.snoc ?_ rfl
    refine defers_bind_last (defers_patterns ih scope) fun r => ?_
    exact defers_skip (defers_construct _ _ _ _) fun _ => defers_pure _
  const site value scope := by
    refine defers_skip (defers_tempFor _ _) fun p => defers_leaf ?_ rfl
    exact defers_skip (defers_spec _ _) fun _ => defers_pure _
  var site name scope := by
    refine defers_skip (defers_tempFor _ _) fun p => defers_leaf ?_ rfl
    exact defers_skip (defers_declare _ _) fun _ => defers_pure _

lemma defers_declareDefs (ds : List Def) (scope : Env) : Defers (declareDefs ds scope) [] := by
  induction ds generalizing scope with
  | nil => exact defers_pure _
  | cons d ds ih =>
    refine defers_skip (defers_tempFor _ _) fun temp => ?_
    exact defers_skip (defers_declare _ _) fun scope' => ih scope'

lemma defers_declareParams (function : String) (ps : List Param) (scope : Env) :
    Defers (declareParams function ps scope) [] := by
  induction ps generalizing scope with
  | nil => exact defers_pure _
  | cons p ps ih =>
    refine defers_skip (defers_tempFor _ _) fun temp => ?_
    refine defers_skip (defers_silent (silent_ite (silent_report _) (silent_pure ()))) fun _ => ?_
    refine defers_skip (defers_declare _ _) fun scope' => ?_
    exact defers_skip (ih scope') fun _ => defers_pure _

/-- An expression puts off the checks of its nodes, in whatever environment it is elaborated. -/
def ExprDefers (e : Expr) : Prop := ∀ env, Defers (elaborateExpr e env) e.nodes

def DefDefers (d : Def) : Prop := ∀ env, Defers (elaborateDef d env) d.nodes

section

variable {env : Env}

lemma defers_exprs {es : List Expr} (h : ∀ e ∈ es, ExprDefers e) :
    Defers (elaborateExprs es env) (Expr.nodesOfList es) := by
  induction es with
  | nil => exact defers_pure _
  | cons e es ih =>
    obtain ⟨he, hes⟩ := List.forall_mem_cons.mp h
    refine defers_bind (he env) fun first => ?_
    exact defers_bind_last (ih hes) fun _ => defers_pure _

lemma defers_sizes {es : List Expr} (h : ∀ e ∈ es, ExprDefers e) :
    Defers (elaborateSizes es env) (Expr.nodesOfList es) := by
  induction es with
  | nil => exact defers_pure _
  | cons e es ih =>
    obtain ⟨he, hes⟩ := List.forall_mem_cons.mp h
    refine defers_bind (he env) fun size => ?_
    exact defers_skip (defers_spec _ _) fun _ => ih hes

lemma defers_clauses {cs : List Clause} (h : ∀ c ∈ cs, ExprDefers c.body) (result scrutinee : Tag) :
    Defers (elaborateClauses cs result scrutinee env) (Clause.nodesOfList cs) := by
  induction cs with
  | nil => exact defers_pure _
  | cons c cs ih =>
    obtain ⟨site, pattern, body⟩ := c
    obtain ⟨hbody, hcs⟩ := List.forall_mem_cons.mp h
    rw [Clause.nodesOfList, Clause.nodes, List.append_assoc, List.append_assoc]
    refine defers_bind (pattern_defers.pattern pattern []) fun p => ?_
    refine defers_skip (defers_same _ _) fun _ => ?_
    refine defers_bind (hbody _) fun b => ?_
    refine defers_skip (defers_same _ _) fun _ => ?_
    have hclause : Defers (pure ()) [.clause (.mk site pattern body)] :=
      defers_leaf (defers_pure ()) rfl
    exact defers_bind hclause fun _ => ih hcs

lemma defers_defs {ds : List Def} (h : ∀ d ∈ ds, DefDefers d) :
    Defers (elaborateDefs ds env) (Def.nodesOfList ds) := by
  induction ds with
  | nil => exact defers_pure _
  | cons d ds ih =>
    obtain ⟨hd, hds⟩ := List.forall_mem_cons.mp h
    exact defers_bind (hd env) fun _ => ih hds

/-- Names are defined before the definitions or after them, and put nothing off. -/
lemma defers_group {g : LetGroup} (h : ∀ d ∈ g.defs, DefDefers d) :
    Defers (elaborateGroup g env) g.nodes := by
  obtain ⟨site, isRec, ds⟩ := g
  refine Defers.snoc (n := .letGroup (.mk site isRec ds)) ?_ rfl
  cases isRec with
  | true =>
    refine defers_skip (defers_declareDefs ds []) fun scope => ?_
    exact defers_bind_last (defers_defs h) fun _ => defers_pure _
  | false => exact defers_bind_last (defers_defs h) fun _ => defers_declareDefs ds []

end

/-- What a mutable variable or array puts off is its own check. -/
lemma defers_validateMutable {site : Site} {name : String} {ty : Option Ty}
    (hn : openBinding? n = if ty.isNone then some ⟨site.id, name, site.span⟩ else none) :
    Defers (validateMutable site name ty) [n] := by
  cases ty with
  | none =>
    intro w
    have hrun : (validateMutable site name none w).2.inference.pending =
        w.inference.pending.push ⟨site.id, name, site.span⟩ := rfl
    rw [hrun, Array.toList_push, openBindings, List.filterMap_cons_some hn]
    rfl
  | some ty => exact defers_leaf (defers_silent (silent_validate _ _ _)) hn

lemma tree_defers : TreeCases ExprDefers DefDefers where
  const site value env := by
    refine defers_skip (defers_tempFor _ _) fun t => defers_leaf ?_ rfl
    exact defers_skip (defers_spec _ _) fun _ => defers_pure _
  constr site name env := by
    refine defers_skip (defers_tempFor _ _) fun t => defers_leaf ?_ rfl
    exact defers_skip (defers_construct _ _ _ _) fun _ => defers_pure _
  var site name env := by
    refine defers_skip (defers_tempFor _ _) fun t => defers_leaf ?_ rfl
    exact defers_skip (defers_constrainUse fun s => defers_same t s) fun _ => defers_pure _
  dim site dimension name env := by
    refine defers_skip (defers_tempFor _ _) fun t => defers_leaf ?_ rfl
    refine defers_skip (defers_silent (silent_ite (silent_report _) (silent_pure ()))) fun _ => ?_
    refine defers_skip (defers_constrainUse fun a => defers_emits (emits_oneOf a _)) fun _ => ?_
    exact defers_skip (defers_spec _ _) fun _ => defers_pure _
  new site ty env := by
    refine defers_skip (defers_tempFor _ _) fun t => defers_leaf ?_ rfl
    refine defers_skip (defers_silent (silent_validate _ _ _)) fun _ => ?_
    exact defers_skip (defers_spec _ _) fun _ => defers_pure _
  construct site name args h env := by
    refine defers_skip (defers_tempFor _ _) fun t => Defers.snoc ?_ rfl
    refine defers_bind_last (defers_exprs h) fun ts => ?_
    exact defers_skip (defers_construct _ _ _ _) fun _ => defers_pure _
  call site name args h env := by
    refine defers_skip (defers_tempFor _ _) fun t => Defers.snoc ?_ rfl
    refine defers_bind_last (defers_exprs h) fun ts => ?_
    exact defers_skip (defers_constrainUse fun f => defers_spec f _) fun _ => defers_pure _
  element site name indices h env := by
    refine defers_skip (defers_tempFor _ _) fun t => Defers.snoc ?_ rfl
    refine defers_bind_last (defers_sizes h) fun _ => defers_skip (defers_aux _ _) fun e => ?_
    refine defers_skip (defers_constrainUse fun a => defers_spec a _) fun _ => ?_
    exact defers_skip (defers_spec _ _) fun _ => defers_pure _
  binary site op left right hl hr env := by
    refine defers_skip (defers_tempFor _ _) fun t => Defers.snoc ?_ rfl
    refine defers_bind (hl env) fun l => defers_bind_last (hr env) fun r => ?_
    exact defers_skip (defers_emits (emits_relate op t l r)) fun _ => defers_pure _
  unary site op operand h env := by
    refine defers_skip (defers_tempFor _ _) fun t => Defers.snoc ?_ rfl
    refine defers_bind_last (h env) fun o => ?_
    exact defers_skip (defers_emits (emits_relateUnary op t o)) fun _ => defers_pure _
  delete site operand h env := by
    refine defers_skip (defers_tempFor _ _) fun t => Defers.snoc ?_ rfl
    refine defers_bind_last (h env) fun e => defers_skip (defers_aux _ _) fun inner => ?_
    refine defers_skip (defers_spec _ _) fun _ => ?_
    exact defers_skip (defers_spec _ _) fun _ => defers_pure _
  forLoop site counter lower down upper body hf hl hb env := by
    refine defers_skip (defers_tempFor _ _) fun t => Defers.snoc ?_ rfl
    rw [List.append_assoc]
    refine defers_bind (hf env) fun f => defers_bind (hl env) fun l => ?_
    refine defers_skip (defers_spec _ _) fun _ => defers_skip (defers_spec _ _) fun _ => ?_
    refine defers_skip (defers_aux _ _) fun c => defers_bind_last (hb _) fun b => ?_
    refine defers_skip (defers_spec _ _) fun _ => ?_
    exact defers_skip (defers_spec _ _) fun _ => defers_pure _
  whileLoop site condition body hc hb env := by
    refine defers_skip (defers_tempFor _ _) fun t => Defers.snoc ?_ rfl
    refine defers_bind (hc env) fun c => defers_bind_last (hb env) fun b => ?_
    refine defers_skip (defers_spec _ _) fun _ => defers_skip (defers_spec _ _) fun _ => ?_
    exact defers_skip (defers_spec _ _) fun _ => defers_pure _
  ifThen site condition positive hc hp env := by
    refine defers_skip (defers_tempFor _ _) fun t => Defers.snoc ?_ rfl
    refine defers_bind (hc env) fun c => defers_skip (defers_spec _ _) fun _ => ?_
    refine defers_bind_last (hp env) fun p => defers_skip (defers_spec _ _) fun _ => ?_
    exact defers_skip (defers_spec _ _) fun _ => defers_pure _
  ifElse site condition positive negative hc hp hn env := by
    refine defers_skip (defers_tempFor _ _) fun t => Defers.snoc ?_ rfl
    rw [List.append_assoc]
    refine defers_bind (hc env) fun c => defers_skip (defers_spec _ _) fun _ => ?_
    refine defers_bind (hp env) fun p => defers_bind_last (hn env) fun n => ?_
    refine defers_skip (defers_same _ _) fun _ => ?_
    exact defers_skip (defers_same _ _) fun _ => defers_pure _
  letIn site group body hg hb env := by
    refine defers_skip (defers_tempFor _ _) fun t => Defers.snoc ?_ rfl
    refine defers_bind (defers_group hg) fun scope => defers_bind_last (hb _) fun b => ?_
    exact defers_skip (defers_same _ _) fun _ => defers_pure _
  matchWith site scrutinee clauses hs hc env := by
    refine defers_skip (defers_tempFor _ _) fun t => Defers.snoc ?_ rfl
    refine defers_bind (hs env) fun s => ?_
    exact defers_bind_last (defers_clauses hc t s) fun _ => defers_pure _
  function site name params result body hb env := by
    have hparams : openBindings (params.map .param) = [] := by
      simp [openBindings, List.filterMap_eq_nil_iff, openBinding?]
    refine defers_skip
      (defers_silent (silent_forM (fun _ => silent_validateOption _ _ _) _)) fun _ => ?_
    refine defers_skip (defers_silent (silent_validateResult _ _ _)) fun _ => ?_
    refine defers_skip (defers_tempFor _ _) fun f => Defers.snoc ?_ rfl
    have hdeclare : Defers (declareParams name params []) (params.map .param) := by
      intro w
      rw [hparams]
      exact defers_declareParams name params [] w
    refine defers_bind hdeclare fun ps => defers_bind_last (hb _) fun b => ?_
    exact defers_skip (defers_forSome fun ty => defers_spec b _) fun _ => defers_spec f _
  constant site name ty body hb env := by
    refine defers_skip (defers_silent (silent_validateOption _ _ _)) fun _ => ?_
    refine defers_skip (defers_tempFor _ _) fun c => Defers.snoc ?_ rfl
    exact defers_bind_last (hb env) fun b => defers_same c b
  mutableVar site name ty env := by
    refine defers_skip (defers_tempFor _ _) fun _ => defers_validateMutable ?_
    cases ty <;> rfl
  mutableArray site name dims ty hd env := by
    refine defers_bind (defers_sizes hd) fun _ => ?_
    refine defers_skip (defers_tempFor _ _) fun _ => defers_validateMutable ?_
    cases ty <;> rfl

lemma defers_typeGroup (group : TypeGroup) : Defers group.analyze group.nodes := by
  have hnone : openBindings group.nodes = [] := by
    refine List.filterMap_eq_nil_iff.mpr fun n hn => ?_
    have huntyped := isTyped_of_mem_typeGroup hn
    cases n with
    | definition d => cases huntyped
    | _ => rfl
  intro w
  rw [typeGroup_run, hnone, List.append_nil]

/-- The checks that a walk puts off are those of the nodes of the program. -/
lemma defers_definitions (ds : List Definition) (env : Env) :
    Defers (elaborateDefinitions ds env) (ds.flatMap Definition.nodes) := by
  induction ds generalizing env with
  | nil => exact defers_pure _
  | cons d ds ih =>
    cases d with
    | lets group => exact defers_bind (defers_group (tree_defers.group group)) fun _ => ih _
    | types group => exact defers_bind (defers_typeGroup group) fun _ => ih env

/-- Why the type in the slot of a definition is not well formed. -/
def rejection? (types : TypeTable) (slots : TypeSlots) (b : Obligation) : Option InvalidType :=
  (slots.get? b.node).bind fun ty =>
    match types.validate ty with
    | .ok () => none
    | .error cause => some cause

/-- What concluding leaves behind after a walk that ended with the given type table and reports,
when the solver has found the given types. -/
structure Concluded (program : Program) (solution : Solution) (types : TypeTable)
    (walked : List Report) (analysis : Analysis) (reports : List Report) : Prop where
  /-- There are as many slots as before. -/
  size : analysis.slots.size = program.nodeCount
  /-- Every slot that may be written is there, so that none is added. -/
  inside : ∀ temp ∈ analysis.temps.toList, temp.primary = true → temp.node < program.nodeCount
  /-- No node has two primary placeholders. -/
  primary : ∀ temp ∈ analysis.temps.toList, ∀ temp' ∈ analysis.temps.toList,
    temp.primary = true → temp'.primary = true → temp.node = temp'.node → temp = temp'
  /-- The slot of a node with a primary placeholder holds what was found for it, if anything. -/
  solved : ∀ temp ∈ analysis.temps.toList, temp.primary = true →
    analysis.slots.get? temp.node = solution.get? temp.tag
  /-- All other slots are empty. -/
  unsolved : ∀ id, (∀ temp ∈ analysis.temps.toList, temp.primary = true → temp.node ≠ id) →
    analysis.slots.get? id = none
  outstanding : analysis.outstanding =
    (openBindings program.nodes).filter fun b => (analysis.slots.get? b.node).isNone
  reports : reports = walked ++ (openBindings program.nodes).filterMap fun b =>
    (rejection? types analysis.slots b).map fun cause =>
      .semantic (.invalidType cause b.name b.span)

lemma obligationError?_eq (types : TypeTable) (slots : TypeSlots) (b : Obligation) :
    (Inference.obligationError? types slots b).map Report.semantic =
      (rejection? types slots b).map fun cause => .semantic (.invalidType cause b.name b.span) := by
  unfold Inference.obligationError? rejection?
  cases slots.get? b.node with
  | none => rfl
  | some ty =>
    rw [Option.bind_some]
    dsimp only
    cases types.validate ty <;> rfl

lemma conclude_errors (i : Inference) (solver : Solver) (slots : TypeSlots) (types : TypeTable) :
    (i.conclude solver slots types).errors.map Report.semantic =
      i.pending.toList.filterMap fun b =>
        (rejection? types (i.conclude solver slots types).slots b).map fun cause =>
          .semantic (.invalidType cause b.name b.span) := by
  simp only [← obligationError?_eq]
  exact List.map_filterMap

lemma conclude_slots (i : Inference) (solver : Solver) (slots : TypeSlots) (types : TypeTable) :
    (i.conclude solver slots types).slots =
      writeAll (solver i.constraints i.temps) i.temps.toList slots := by
  rw [writeAll, Array.foldl_toList]
  rfl

/-- The numbers of nodes with primary placeholders are numbers of slots. -/
lemma inside_of_primary {program : Program} (types : TypeTable) (firstTag : Tag)
    (hnumbers : numbers program.nodes = List.range program.nodeCount) (temp : Temp)
    (htemp : temp ∈
      (elaborateProgram program (Walk.initial types firstTag)).2.inference.temps.toList)
    (hprimary : temp.primary = true) : temp.node < program.nodeCount := by
  have howned : temp.node ∈
      primaries (elaborateProgram program (Walk.initial types firstTag)).2.inference :=
    List.mem_map_of_mem (List.mem_filter.mpr ⟨htemp, hprimary⟩)
  have htyped := ((elaborateProgram_collects program types firstTag).2 temp.node).mp howned
  obtain ⟨n, hn, -, hid⟩ := mem_typedNumbers.mp htyped
  have hmem : n.site.id ∈ numbers program.nodes := List.mem_map_of_mem hn
  rw [hnumbers, hid] at hmem
  exact List.mem_range.mp hmem

/-- Whatever the solver finds, the slots hold what it found for the primary placeholders of their
nodes, the checks that are still outstanding are those of mutable variables and arrays without
annotation whose slot is empty, and the only reports that the conclusion adds are those about
such definitions whose slot holds a type that is not well formed. -/
theorem analyze_concludes (program : Program)
    (hnumbers : numbers program.nodes = List.range program.nodeCount) (types : TypeTable)
    (firstTag : Tag) (solver : Solver) :
    let w := (program.walk (Walk.initial types firstTag)).2
    let result := program.analyze types firstTag solver
    Concluded program (solver result.1.constraints result.1.temps) w.types w.reports.toList
      result.1 result.2.2 := by
  intro w result
  have hw : w = { (elaborateProgram program (Walk.initial types firstTag)).2 with
      scopes := SymbolTable.initial } := congrArg Prod.snd (walk_initial program types firstTag)
  have hresult : result = _ := analyze_eq program types firstTag solver
  have hinside := inside_of_primary types firstTag hnumbers
  have hdistinct := (elaborateProgram_collects program types firstTag).1.primaries
  have hpending := defers_definitions program.definitions Library.symbols
    (Walk.initial types firstTag)
  change (elaborateProgram program (Walk.initial types firstTag)).2.inference.pending.toList =
    openBindings program.nodes at hpending
  rw [hw, hresult]
  generalize (elaborateProgram program (Walk.initial types firstTag)).2 = v at *
  have hcount : (TypeSlots.ofCount program.nodeCount).size = program.nodeCount :=
    Array.size_replicate
  obtain ⟨hsize, hsolved, hunsolved⟩ :=
    writeAll_spec (solver v.inference.constraints v.inference.temps) hdistinct
      (fun temp htemp hprimary => hcount.symm ▸ hinside temp htemp hprimary)
      (fun temp _ _ => get?_ofCount _ _)
  dsimp only
  constructor
  · rw [conclude_slots, hsize, hcount]
  · exact hinside
  · intro temp htemp temp' htemp' hprimary hprimary' hnode
    exact List.inj_on_of_nodup_map hdistinct (List.mem_filter.mpr ⟨htemp, hprimary⟩)
      (List.mem_filter.mpr ⟨htemp', hprimary'⟩) hnode
  · intro temp htemp hprimary
    rw [conclude_slots]
    exact hsolved temp htemp hprimary
  · intro id hid
    rw [conclude_slots, hunsolved id hid]
    exact get?_ofCount _ _
  · rw [← hpending]
    rfl
  · rw [conclude_errors, hpending]

/-- The program is `let mutable a[1] and mutable x let mutable y : int`. -/
def storeTrioProgram : Program where
  definitions := [.lets (.mk ⟨3, default⟩ false
      [.mutableArray ⟨1, default⟩ "a" [.const ⟨0, default⟩ (.int 1)] none,
        .mutableVar ⟨2, default⟩ "x" none]),
    .lets (.mk ⟨5, default⟩ false [.mutableVar ⟨4, default⟩ "y" (some .int)])]
  nodeCount := 6

/-- The solver takes the array for an array of arrays, and solves a placeholder that is not
there. -/
def guessingSolver : Solver := fun _ _ => ⟨[(2, .array (.array .int 1) 1), (9, .bool)]⟩

theorem analyze_concludes_storeTrioProgram :
    numbers storeTrioProgram.nodes = List.range storeTrioProgram.nodeCount ∧
    (let w := (storeTrioProgram.walk (Walk.initial TypeTable.initial 1)).2
    let result := storeTrioProgram.analyze TypeTable.initial 1 guessingSolver
    Concluded storeTrioProgram (guessingSolver result.1.constraints result.1.temps) w.types
      w.reports.toList result.1 result.2.2) ∧
    (storeTrioProgram.analyze TypeTable.initial 1 guessingSolver).1.outstanding =
      [⟨2, "x", default⟩] ∧
    (storeTrioProgram.analyze TypeTable.initial 1 guessingSolver).2.2 =
      [.semantic (.invalidType .arrayOfArray "a" default)] := by
  have hnumbers : numbers storeTrioProgram.nodes = List.range storeTrioProgram.nodeCount := by
    decide +kernel
  exact ⟨hnumbers, analyze_concludes storeTrioProgram hnumbers TypeTable.initial 1 guessingSolver,
    by decide +kernel, by decide +kernel⟩

end Llama.Proofs
