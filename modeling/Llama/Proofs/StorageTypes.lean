import Llama.Proofs.AnalysisCompleteness
import Llama.Proofs.ConstraintSoundness

/-!
# Types of mutable bindings

A primary placeholder carries the type that the source gives to its node, and nothing else. So
the annotation of a mutable variable or array reaches every solution of the constraints, as the
type of a reference or of an array with as many dimensions as there are sizes. The placeholder of
a mutable binding without annotation has no hint.
-/

namespace Llama.Proofs

open Analyzer

variable {α β : Type} {nodes nodes' : List Node}

/-- A primary placeholder is that of one of the nodes, and its hint is the type that the source
gives to this node. -/
def Traced (nodes : List Node) (temp : Temp) : Prop :=
  temp.primary = true →
    ∃ n ∈ nodes, isTyped n = true ∧ n.site.id = temp.node ∧ temp.hint = declaredAt? n

/-- The placeholders that the step makes are traced to the nodes. -/
def Asks (nodes : List Node) (m : Analyzer α) : Prop :=
  ∀ w, ∀ temp ∈ (m w).2.inference.temps.toList,
    temp ∈ w.inference.temps.toList ∨ Traced nodes temp

lemma Asks.mono {m : Analyzer α} (h : Asks nodes m) (hsub : ∀ n ∈ nodes, n ∈ nodes') :
    Asks nodes' m := by
  intro w temp htemp
  rcases h w temp htemp with hold | hnew
  · exact .inl hold
  · right
    intro hprimary
    obtain ⟨n, hn, hsource⟩ := hnew hprimary
    exact ⟨n, hsub n hn, hsource⟩

lemma asks_keeps {m : Analyzer α} (h : ∀ w, (m w).2.inference.temps = w.inference.temps) :
    Asks nodes m := by
  intro w temp htemp
  rw [h w] at htemp
  exact .inl htemp

lemma asks_pure (a : α) : Asks nodes (pure a) := asks_keeps fun _ => rfl

lemma asks_silent {m : Analyzer α} (h : Silent m) : Asks nodes m :=
  asks_keeps fun w => by rw [(h w).1]

lemma asks_emits {m : Analyzer Unit} {cs : List Constraint} (h : Emits m cs) : Asks nodes m := by
  apply asks_keeps
  intro w
  rw [h w]
  exact (foldl_constrain cs w.inference).2.1

lemma asks_spec (target : Tag) (term : Term) : Asks nodes (spec target term) :=
  asks_emits (emits_spec target term)

lemma asks_same (left right : Tag) : Asks nodes (same left right) :=
  asks_emits (emits_same left right)

lemma asks_bind {m : Analyzer α} {f : α → Analyzer β} (hm : Asks nodes m)
    (hf : ∀ a, Asks nodes (f a)) : Asks nodes (m >>= f) := by
  intro w temp htemp
  rw [bind_run] at htemp
  rcases hf (m w).1 (m w).2 temp htemp with hold | hnew
  · exact hm w temp hold
  · exact .inr hnew

lemma asks_newTemp {node : NodeId} {hint : Option Ty} {primary : Bool} {w : Walk} {temp : Temp}
    (hnew : Traced nodes ⟨w.inference.next, node, hint, primary⟩)
    (htemp : temp ∈ (w.inference.newTemp node hint primary).2.temps.toList) :
    temp ∈ w.inference.temps.toList ∨ Traced nodes temp := by
  rw [newTemp_temps] at htemp
  rcases List.mem_append.mp htemp with hold | hlast
  · exact .inl hold
  · rw [List.mem_singleton.mp hlast]
    exact .inr hnew

/-- A placeholder that is asked for with the type that the source gives to the node. -/
lemma asks_tempFor {n : Node} {hint : Option Ty} (hn : n ∈ nodes) (htyped : isTyped n = true)
    (hhint : hint = declaredAt? n) : Asks nodes (tempFor n.site.id hint) := by
  intro w temp htemp
  have hrun : (tempFor n.site.id hint w).2.inference =
      (w.inference.tempFor n.site.id hint).2 := rfl
  rw [hrun, Inference.tempFor] at htemp
  cases hprimary : w.inference.primary? n.site.id with
  | some tag =>
    rw [hprimary] at htemp
    exact .inl htemp
  | none =>
    rw [hprimary] at htemp
    exact asks_newTemp (fun _ => ⟨n, hn, htyped, rfl, hhint⟩) htemp

/-- Auxiliary placeholders need no source. -/
lemma asks_aux (node : NodeId) (hint : Option Ty) : Asks nodes (aux node hint) := by
  intro w temp htemp
  have hnew : Traced nodes ⟨w.inference.next, node, hint, false⟩ := nofun
  exact asks_newTemp hnew htemp

lemma asks_forSome {value : Option α} {step : α → Analyzer Unit}
    (h : ∀ a, Asks nodes (step a)) : Asks nodes (forSome value step) := by
  cases value with
  | none => exact asks_pure ()
  | some a => exact h a

lemma asks_construct (target : Tag) (name : String) (args : List Tag) (span : Span) :
    Asks nodes (construct target name args span) := by
  have hfound : Asks nodes (constructorOf name span) := by
    apply asks_keeps
    intro w
    rw [constructorOf_run]
    cases w.types.constructorWithin? name w.passed <;> rfl
  rw [construct_eq]
  apply asks_bind hfound
  intro found
  apply asks_forSome
  intro info
  apply asks_bind (asks_silent (silent_ite (silent_report _) (silent_pure ())))
  intro _
  apply asks_bind (asks_spec target _)
  intro _
  exact asks_emits (emits_forM (fun a : Tag × Ty => emits_spec a.1 a.2.toTerm) _)

lemma asks_declare (scope : Env) (symbol : Symbol) : Asks nodes (declare scope symbol) := by
  unfold declare
  cases Env.lookup? scope symbol.name with
  | none => exact asks_pure _
  | some previous => exact asks_bind (asks_silent (silent_report _)) fun _ => asks_pure _

lemma asks_constrainUse (env : Env) (name : String) (site : Site) {step : Tag → Analyzer Unit}
    (hstep : ∀ tag, Asks nodes (step tag)) : Asks nodes (constrainUse env name site step) := by
  have hresolve : Asks nodes (resolveUse env name site) := by
    unfold resolveUse
    cases Env.lookup? env name with
    | none => exact asks_bind (asks_silent (silent_report _)) fun _ => asks_pure _
    | some symbol =>
      obtain ⟨name', kind, ty, temp, span⟩ := symbol
      cases temp with
      | some tag => exact asks_pure _
      | none =>
        cases ty with
        | none => exact asks_pure _
        | some ty => exact asks_bind (asks_aux _ _) fun _ => asks_pure _
  exact asks_bind hresolve fun _ => asks_forSome hstep

lemma asks_validateMutable (site : Site) (name : String) (ty : Option Ty) :
    Asks nodes (validateMutable site name ty) := by
  cases ty with
  | none => exact asks_keeps fun _ => rfl
  | some ty => exact asks_silent (silent_validate ty name site.span)

def PatternAsks (p : Pattern) : Prop := ∀ scope, Asks p.nodes (elaboratePattern p scope)

lemma asks_patterns {ps : List Pattern} (h : ∀ p ∈ ps, PatternAsks p) (scope : Env) :
    Asks (Pattern.nodesOfList ps) (elaboratePatterns ps scope) := by
  induction ps generalizing scope with
  | nil => exact asks_pure _
  | cons p ps ih =>
    have hfirst : Asks (Pattern.nodesOfList (p :: ps)) (elaboratePattern p scope) :=
      (h p List.mem_cons_self scope).mono fun n hn => List.mem_append_left _ hn
    apply asks_bind hfirst
    intro r
    have hrest := ih (fun q hq => h q (List.mem_cons_of_mem p hq)) r.2
    exact asks_bind (hrest.mono fun n hn => List.mem_append_right _ hn) fun _ => asks_pure _

lemma pattern_asks : PatternCases PatternAsks where
  constr site name args ih scope := by
    apply asks_bind (asks_tempFor (n := .pattern (.constr site name args)) (by simp [Pattern.nodes])
      rfl rfl)
    intro p
    apply asks_bind ((asks_patterns ih scope).mono fun n hn => List.mem_append_left _ hn)
    intro r
    exact asks_bind (asks_construct _ _ _ _) fun _ => asks_pure _
  const site value scope := by
    apply asks_bind (asks_tempFor (n := .pattern (.const site value)) (by simp [Pattern.nodes])
      rfl rfl)
    intro p
    exact asks_bind (asks_spec _ _) fun _ => asks_pure _
  var site name scope := by
    apply asks_bind (asks_tempFor (n := .pattern (.var site name)) (by simp [Pattern.nodes])
      rfl rfl)
    intro p
    exact asks_bind (asks_declare _ _) fun _ => asks_pure _

lemma asks_declareDefs {ds : List Def} (h : ∀ d ∈ ds, .definition d ∈ nodes) (scope : Env) :
    Asks nodes (declareDefs ds scope) := by
  induction ds generalizing scope with
  | nil => exact asks_pure _
  | cons d ds ih =>
    apply asks_bind (asks_tempFor (n := .definition d) (h d List.mem_cons_self) rfl rfl)
    intro t
    apply asks_bind (asks_declare _ _)
    intro scope'
    exact ih (fun x hx => h x (List.mem_cons_of_mem d hx)) scope'

lemma asks_declareParams {function : String} {ps : List Param} (h : ∀ p ∈ ps, .param p ∈ nodes)
    (scope : Env) : Asks nodes (declareParams function ps scope) := by
  induction ps generalizing scope with
  | nil => exact asks_pure _
  | cons p ps ih =>
    apply asks_bind (asks_tempFor (n := .param p) (h p List.mem_cons_self) rfl rfl)
    intro t
    apply asks_bind (asks_silent (silent_ite (silent_report _) (silent_pure ())))
    intro _
    apply asks_bind (asks_declare _ _)
    intro scope'
    exact asks_bind (ih (fun x hx => h x (List.mem_cons_of_mem p hx)) scope') fun _ => asks_pure _

def ExprAsks (e : Expr) : Prop := ∀ env, Asks e.nodes (elaborateExpr e env)

def DefAsks (d : Def) : Prop := ∀ env, Asks d.nodes (elaborateDef d env)

lemma asks_exprs {es : List Expr} (h : ∀ e ∈ es, ExprAsks e) (env : Env) :
    Asks (Expr.nodesOfList es) (elaborateExprs es env) := by
  induction es with
  | nil => exact asks_pure _
  | cons e es ih =>
    apply asks_bind ((h e List.mem_cons_self env).mono fun n hn => List.mem_append_left _ hn)
    intro t
    have hrest := ih fun x hx => h x (List.mem_cons_of_mem e hx)
    exact asks_bind (hrest.mono fun n hn => List.mem_append_right _ hn) fun _ => asks_pure _

lemma asks_sizes {es : List Expr} (h : ∀ e ∈ es, ExprAsks e) (env : Env) :
    Asks (Expr.nodesOfList es) (elaborateSizes es env) := by
  induction es with
  | nil => exact asks_pure _
  | cons e es ih =>
    apply asks_bind ((h e List.mem_cons_self env).mono fun n hn => List.mem_append_left _ hn)
    intro t
    apply asks_bind (asks_spec _ _)
    intro _
    exact (ih fun x hx => h x (List.mem_cons_of_mem e hx)).mono fun n hn =>
      List.mem_append_right _ hn

lemma asks_clauses {cs : List Clause} (h : ∀ c ∈ cs, ExprAsks c.body) (result scrutinee : Tag)
    (env : Env) : Asks (Clause.nodesOfList cs) (elaborateClauses cs result scrutinee env) := by
  induction cs with
  | nil => exact asks_pure _
  | cons c cs ih =>
    obtain ⟨site, pattern, body⟩ := c
    apply asks_bind ((pattern_asks.pattern pattern []).mono fun n hn => by
      simp [Clause.nodesOfList, Clause.nodes, hn])
    intro p
    apply asks_bind (asks_same _ _)
    intro _
    apply asks_bind ((h _ List.mem_cons_self (p.2 ++ env)).mono fun n hn => by
      simp [Clause.nodesOfList, Clause.nodes, show n ∈ body.nodes from hn])
    intro b
    apply asks_bind (asks_same _ _)
    intro _
    exact (ih fun x hx => h x (List.mem_cons_of_mem _ hx)).mono fun n hn =>
      List.mem_append_right _ hn

lemma asks_defs {ds : List Def} (h : ∀ d ∈ ds, DefAsks d) (env : Env) :
    Asks (Def.nodesOfList ds) (elaborateDefs ds env) := by
  induction ds with
  | nil => exact asks_pure _
  | cons d ds ih =>
    apply asks_bind ((h d List.mem_cons_self env).mono fun n hn => List.mem_append_left _ hn)
    intro _
    exact (ih fun x hx => h x (List.mem_cons_of_mem d hx)).mono fun n hn =>
      List.mem_append_right _ hn

lemma asks_group {g : LetGroup} (h : ∀ d ∈ g.defs, DefAsks d) (env : Env) :
    Asks g.nodes (elaborateGroup g env) := by
  obtain ⟨site, isRec, ds⟩ := g
  have hdefs : ∀ env, Asks (LetGroup.nodes (.mk site isRec ds)) (elaborateDefs ds env) :=
    fun env => (asks_defs h env).mono fun n hn => List.mem_append_left _ hn
  have hnames : Asks (LetGroup.nodes (.mk site isRec ds)) (declareDefs ds []) :=
    asks_declareDefs (fun d hd => List.mem_append_left _ (mem_defNodes_of_mem hd)) []
  cases isRec with
  | true => exact asks_bind hnames fun _ => asks_bind (hdefs _) fun _ => asks_pure _
  | false => exact asks_bind (hdefs env) fun _ => hnames

lemma asks_self (e : Expr) : Asks e.nodes (tempFor e.site.id none) := by
  refine asks_tempFor (n := .expr e) ?_ rfl rfl
  cases e <;> simp [Expr.nodes]

lemma asks_definition (d : Def) : Asks d.nodes (tempFor d.site.id d.declaredType?) := by
  refine asks_tempFor (n := .definition d) ?_ rfl rfl
  cases d <;> simp [Def.nodes]

/-- Every expression and every definition asks for placeholders of its nodes, with the types that
the source gives them. -/
lemma tree_asks : TreeCases ExprAsks DefAsks where
  const site value env := by
    apply asks_bind (asks_self (.const site value))
    intro t
    exact asks_bind (asks_spec _ _) fun _ => asks_pure _
  constr site name env := by
    apply asks_bind (asks_self (.constr site name))
    intro t
    exact asks_bind (asks_construct _ _ _ _) fun _ => asks_pure _
  var site name env := by
    apply asks_bind (asks_self (.var site name))
    intro t
    exact asks_bind (asks_constrainUse _ _ _ fun _ => asks_same _ _) fun _ => asks_pure _
  new site ty env := by
    apply asks_bind (asks_self (.new site ty))
    intro t
    apply asks_bind (asks_silent (silent_validate _ _ _))
    intro _
    exact asks_bind (asks_spec _ _) fun _ => asks_pure _
  dim site dimension name env := by
    apply asks_bind (asks_self (.dim site dimension name))
    intro t
    apply asks_bind (asks_silent (silent_ite (silent_report _) (silent_pure ())))
    intro _
    apply asks_bind (asks_constrainUse _ _ _ fun _ => asks_emits (emits_oneOf _ _))
    intro _
    exact asks_bind (asks_spec _ _) fun _ => asks_pure _
  construct site name args h env := by
    apply asks_bind (asks_self (.construct site name args))
    intro t
    apply asks_bind ((asks_exprs h env).mono fun n hn => by simp [Expr.nodes, hn])
    intro ts
    exact asks_bind (asks_construct _ _ _ _) fun _ => asks_pure _
  call site name args h env := by
    apply asks_bind (asks_self (.call site name args))
    intro t
    apply asks_bind ((asks_exprs h env).mono fun n hn => by simp [Expr.nodes, hn])
    intro ts
    exact asks_bind (asks_constrainUse _ _ _ fun _ => asks_spec _ _) fun _ => asks_pure _
  element site name indices h env := by
    apply asks_bind (asks_self (.element site name indices))
    intro t
    apply asks_bind ((asks_sizes h env).mono fun n hn => by simp [Expr.nodes, hn])
    intro _
    apply asks_bind (asks_aux _ _)
    intro element
    apply asks_bind (asks_constrainUse _ _ _ fun _ => asks_spec _ _)
    intro _
    exact asks_bind (asks_spec _ _) fun _ => asks_pure _
  binary site op left right hl hr env := by
    apply asks_bind (asks_self (.binary site op left right))
    intro t
    apply asks_bind ((hl env).mono fun n hn => by simp [Expr.nodes, hn])
    intro l
    apply asks_bind ((hr env).mono fun n hn => by simp [Expr.nodes, hn])
    intro r
    exact asks_bind (asks_emits (emits_relate op t l r)) fun _ => asks_pure _
  unary site op operand h env := by
    apply asks_bind (asks_self (.unary site op operand))
    intro t
    apply asks_bind ((h env).mono fun n hn => by simp [Expr.nodes, hn])
    intro o
    exact asks_bind (asks_emits (emits_relateUnary op t o)) fun _ => asks_pure _
  delete site operand h env := by
    apply asks_bind (asks_self (.delete site operand))
    intro t
    apply asks_bind ((h env).mono fun n hn => by simp [Expr.nodes, hn])
    intro e
    apply asks_bind (asks_aux _ _)
    intro inner
    exact asks_bind (asks_spec _ _) fun _ => asks_bind (asks_spec _ _) fun _ => asks_pure _
  forLoop site counter first down last body hf hl hb env := by
    apply asks_bind (asks_self (.forLoop site counter first down last body))
    intro t
    apply asks_bind ((hf env).mono fun n hn => by simp [Expr.nodes, hn])
    intro f
    apply asks_bind ((hl env).mono fun n hn => by simp [Expr.nodes, hn])
    intro l
    apply asks_bind (asks_spec _ _)
    intro _
    apply asks_bind (asks_spec _ _)
    intro _
    apply asks_bind (asks_aux _ _)
    intro c
    apply asks_bind ((hb _).mono fun n hn => by simp [Expr.nodes, hn])
    intro b
    exact asks_bind (asks_spec _ _) fun _ => asks_bind (asks_spec _ _) fun _ => asks_pure _
  whileLoop site condition body hc hb env := by
    apply asks_bind (asks_self (.whileLoop site condition body))
    intro t
    apply asks_bind ((hc env).mono fun n hn => by simp [Expr.nodes, hn])
    intro c
    apply asks_bind ((hb env).mono fun n hn => by simp [Expr.nodes, hn])
    intro b
    apply asks_bind (asks_spec _ _)
    intro _
    exact asks_bind (asks_spec _ _) fun _ => asks_bind (asks_spec _ _) fun _ => asks_pure _
  ifThen site condition positive hc hp env := by
    apply asks_bind (asks_self (.ifThen site condition positive))
    intro t
    apply asks_bind ((hc env).mono fun n hn => by simp [Expr.nodes, hn])
    intro c
    apply asks_bind (asks_spec _ _)
    intro _
    apply asks_bind ((hp env).mono fun n hn => by simp [Expr.nodes, hn])
    intro p
    exact asks_bind (asks_spec _ _) fun _ => asks_bind (asks_spec _ _) fun _ => asks_pure _
  ifElse site condition positive negative hc hp hn env := by
    apply asks_bind (asks_self (.ifElse site condition positive negative))
    intro t
    apply asks_bind ((hc env).mono fun n hn => by simp [Expr.nodes, hn])
    intro c
    apply asks_bind (asks_spec _ _)
    intro _
    apply asks_bind ((hp env).mono fun n hn => by simp [Expr.nodes, hn])
    intro p
    apply asks_bind ((hn env).mono fun n hn => by simp [Expr.nodes, hn])
    intro o
    exact asks_bind (asks_same _ _) fun _ => asks_bind (asks_same _ _) fun _ => asks_pure _
  letIn site group body hg hb env := by
    apply asks_bind (asks_self (.letIn site group body))
    intro t
    apply asks_bind ((asks_group hg env).mono fun n hn => by simp [Expr.nodes, hn])
    intro scope
    apply asks_bind ((hb _).mono fun n hn => by simp [Expr.nodes, hn])
    intro b
    exact asks_bind (asks_same _ _) fun _ => asks_pure _
  matchWith site scrutinee clauses hs hc env := by
    apply asks_bind (asks_self (.matchWith site scrutinee clauses))
    intro t
    apply asks_bind ((hs env).mono fun n hn => by simp [Expr.nodes, hn])
    intro s
    apply asks_bind ((asks_clauses hc t s env).mono fun n hn => by simp [Expr.nodes, hn])
    intro _
    exact asks_pure _
  function site name params result body hb env := by
    apply asks_bind (asks_silent (silent_forM (fun _ => silent_validateOption _ _ _) _))
    intro _
    apply asks_bind (asks_silent (silent_validateResult _ _ _))
    intro _
    apply asks_bind (asks_definition (.function site name params result body))
    intro f
    apply asks_bind (asks_declareParams (fun p hp => by simp [Def.nodes, hp]) [])
    intro ps
    apply asks_bind ((hb _).mono fun n hn => by simp [Def.nodes, hn])
    intro b
    exact asks_bind (asks_forSome fun _ => asks_spec _ _) fun _ => asks_spec _ _
  constant site name ty body hb env := by
    apply asks_bind (asks_silent (silent_validateOption _ _ _))
    intro _
    apply asks_bind (asks_definition (.constant site name ty body))
    intro c
    apply asks_bind ((hb env).mono fun n hn => by simp [Def.nodes, hn])
    intro b
    exact asks_same _ _
  mutableVar site name ty env := by
    apply asks_bind (asks_definition (.mutableVar site name ty))
    intro _
    exact asks_validateMutable _ _ _
  mutableArray site name dims ty hd env := by
    apply asks_bind ((asks_sizes hd env).mono fun n hn => by simp [Def.nodes, hn])
    intro _
    apply asks_bind (asks_definition (.mutableArray site name dims ty))
    intro _
    exact asks_validateMutable _ _ _

lemma asks_definitions (ds : List Definition) (env : Env) :
    Asks (ds.flatMap Definition.nodes) (elaborateDefinitions ds env) := by
  induction ds generalizing env with
  | nil => exact asks_pure _
  | cons d ds ih =>
    have hrest : ∀ env, Asks ((d :: ds).flatMap Definition.nodes) (elaborateDefinitions ds env) :=
      fun env => (ih env).mono fun n hn => List.mem_append_right _ hn
    cases d with
    | lets group =>
      apply asks_bind ((asks_group (tree_asks.group group) env).mono fun n hn =>
        List.mem_append_left _ hn)
      intro scope
      exact hrest (scope ++ env)
    | types group =>
      have hgroup : Asks ((.types group :: ds).flatMap Definition.nodes) group.analyze :=
        asks_keeps fun w => by rw [typeGroup_run]
      exact asks_bind hgroup fun _ => hrest env

/-- Each primary placeholder of an analysis is that of a node of the program, and its hint is the
type that the source gives to this node. -/
theorem traced_of_analyze (program : Program) (types : TypeTable) (firstTag : Tag)
    (solver : Solver) {temp : Temp}
    (htemp : temp ∈ (program.analyze types firstTag solver).1.temps.toList) :
    Traced program.nodes temp := by
  rw [analyze_eq] at htemp
  rcases asks_definitions program.definitions Library.symbols (Walk.initial types firstTag) temp
    htemp with hold | hnew
  · exact absurd hold List.not_mem_nil
  · exact hnew

/-- The types of mutable bindings. Whatever types satisfy the constraints of an analysis, a
variable that is declared with the type `ty` is a reference to `ty`, and an array of `ty` is an
array with one dimension for each of its sizes. The placeholder of a definition has no hint
besides the type that the source gives. All this is about definitions whose number no other node
has. -/
theorem mutable_typed_as_storage (program : Program) (types : TypeTable) (firstTag : Tag)
    (solver : Solver) (θ : Tag → Ty)
    (hθ : ∀ c ∈ (program.analyze types firstTag solver).1.constraints.toList, c.Holds θ)
    (d : Def) (hd : .definition d ∈ program.nodes)
    (hown : ∀ n ∈ program.nodes, n.site.id = d.site.id → n = .definition d) :
    (∃ temp ∈ (program.analyze types firstTag solver).1.temps.toList,
      temp.primary = true ∧ temp.node = d.site.id) ∧
    ∀ temp ∈ (program.analyze types firstTag solver).1.temps.toList,
      temp.primary = true → temp.node = d.site.id →
        temp.hint = d.declaredType? ∧
        (∀ site name ty, d = .mutableVar site name (some ty) → θ temp.tag = .ref ty) ∧
        (∀ site name dims ty, d = .mutableArray site name dims (some ty) →
          θ temp.tag = .array ty dims.length) := by
  have htraced : ∀ temp ∈ (program.analyze types firstTag solver).1.temps.toList,
      Traced program.nodes temp :=
    fun _ htemp => traced_of_analyze program types firstTag solver htemp
  obtain ⟨horderly, hprimaries⟩ := elaborateProgram_collects program types firstTag
  rw [analyze_eq] at hθ htraced ⊢
  constructor
  · have hnumber : d.site.id ∈ typedNumbers program.nodes :=
      mem_typedNumbers.mpr ⟨.definition d, hd, rfl, rfl⟩
    obtain ⟨temp, htemp, hnode⟩ := List.mem_map.mp ((hprimaries d.site.id).mpr hnumber)
    obtain ⟨hmem, hprimary⟩ := List.mem_filter.mp htemp
    exact ⟨temp, hmem, hprimary, hnode⟩
  · intro temp htemp hprimary hnode
    have hhint : temp.hint = d.declaredType? := by
      obtain ⟨n, hn, -, hid, hhint⟩ := htraced temp htemp hprimary
      rw [hhint, hown n hn (hid.trans hnode)]
      rfl
    -- A hint is also a constraint, which the assignment satisfies.
    have hgiven : ∀ ty, d.declaredType? = some ty → θ temp.tag = ty := by
      intro ty hty
      have hholds := hθ _ (horderly.hinted temp htemp ty (hhint.trans hty))
      simpa using hholds
    refine ⟨hhint, ?_, ?_⟩
    · rintro site name ty rfl
      exact hgiven _ rfl
    · rintro site name dims ty rfl
      exact hgiven _ rfl

/-- The array of `let mutable a [1, 2] : bool`. -/
def gridDef : Def :=
  .mutableArray ⟨2, default⟩ "a"
    [.const ⟨0, default⟩ (.int 1), .const ⟨1, default⟩ (.int 2)] (some .bool)

def gridProgram : Program where
  definitions := [.lets (.mk ⟨3, default⟩ false [gridDef])]
  nodeCount := 4

-- The placeholders of the sizes come first, that of the array is the third.
def gridTypes : Tag → Ty
  | 3 => .array .bool 2
  | _ => .int

theorem gridProgram_typed_as_storage :
    (∀ c ∈ (gridProgram.analyze TypeTable.initial 1 Solver.unsolved).1.constraints.toList,
      c.Holds gridTypes) ∧
    .definition gridDef ∈ gridProgram.nodes ∧
    (∀ n ∈ gridProgram.nodes, n.site.id = gridDef.site.id → n = .definition gridDef) ∧
    ∃ temp ∈ (gridProgram.analyze TypeTable.initial 1 Solver.unsolved).1.temps.toList,
      temp.primary = true ∧ temp.node = 2 ∧ temp.hint = some (.array .bool 2) ∧
        gridTypes temp.tag = .array .bool 2 := by
  have hconstraints :
      (gridProgram.analyze TypeTable.initial 1 Solver.unsolved).1.constraints.toList =
        [.spec 1 .int, .spec 1 .int, .spec 2 .int, .spec 2 .int, .spec 3 (.array .bool 2)] := by
    decide +kernel
  have hθ : ∀ c ∈ (gridProgram.analyze TypeTable.initial 1 Solver.unsolved).1.constraints.toList,
      c.Holds gridTypes := by
    simp [hconstraints, gridTypes]
  have hd : .definition gridDef ∈ gridProgram.nodes := by
    simp [gridProgram, gridDef, Program.nodes, Definition.nodes, LetGroup.nodes, Def.nodesOfList,
      Def.nodes]
  have hown : ∀ n ∈ gridProgram.nodes, n.site.id = gridDef.site.id → n = .definition gridDef := by
    simp [gridProgram, gridDef, Program.nodes, Definition.nodes, LetGroup.nodes, Def.nodesOfList,
      Def.nodes, Expr.nodesOfList, Expr.nodes, Node.site, Expr.site, Def.site, LetGroup.site]
  obtain ⟨⟨temp, htemp, hprimary, hnode⟩, hall⟩ := mutable_typed_as_storage gridProgram
    TypeTable.initial 1 Solver.unsolved gridTypes hθ gridDef hd hown
  obtain ⟨hhint, -, harray⟩ := hall temp htemp hprimary hnode
  exact ⟨hθ, hd, hown, temp, htemp, hprimary, hnode, hhint, harray _ _ _ _ rfl⟩

/-- The program is `let mutable x`. -/
def openProgram : Program where
  definitions := [.lets (.mk ⟨1, default⟩ false [.mutableVar ⟨0, default⟩ "x" none])]
  nodeCount := 2

/-- Without its annotation a mutable variable need not be a reference: the program has no errors,
any types satisfy its constraints, and so the placeholder of the variable may be an integer. -/
theorem openProgram_not_typed_as_storage :
    (openProgram.analyze TypeTable.initial 1 Solver.unsolved).2.2 = [] ∧
    (∀ θ, ∀ c ∈ (openProgram.analyze TypeTable.initial 1 Solver.unsolved).1.constraints.toList,
      c.Holds θ) ∧
    (openProgram.analyze TypeTable.initial 1 Solver.unsolved).1.temps.toList =
      [⟨1, 0, none, true⟩] ∧
    ∃ θ : Tag → Ty,
      (∀ c ∈ (openProgram.analyze TypeTable.initial 1 Solver.unsolved).1.constraints.toList,
        c.Holds θ) ∧ ∀ ty, θ 1 ≠ .ref ty := by
  have hreports : (openProgram.analyze TypeTable.initial 1 Solver.unsolved).2.2 = [] := by
    decide +kernel
  have hconstraints :
      (openProgram.analyze TypeTable.initial 1 Solver.unsolved).1.constraints.toList = [] := by
    decide +kernel
  have htemps : (openProgram.analyze TypeTable.initial 1 Solver.unsolved).1.temps.toList =
      [⟨1, 0, none, true⟩] := by
    decide +kernel
  have hany : ∀ θ, ∀ c ∈
      (openProgram.analyze TypeTable.initial 1 Solver.unsolved).1.constraints.toList,
      c.Holds θ := by
    simp [hconstraints]
  exact ⟨hreports, hany, htemps, fun _ => .int, hany _, by simp⟩

end Llama.Proofs
