import Llama.Proofs.PlainSteps

/-!
# The stack of scopes and the environment

A walk that opens, hides and closes scopes does the same as an elaboration that is handed an
environment. `Runs s m m' view` says so of a step `m` that starts on the stack `s` and a step
`m'` that knows no stack: `view` tells what `m` answers and which stack it leaves.
-/

namespace Llama.Proofs

open Analyzer

variable {α β γ δ : Type} {s : SymbolTable} {view : β → α × SymbolTable} {m : Analyzer α}
  {m' : Analyzer β} {env : Env} {name : String} {site : Site}

/-- From the stack `s` the step `m` does what `m'` does, whatever stack `m'` finds. -/
def Runs (s : SymbolTable) (m : Analyzer α) (m' : Analyzer β) (view : β → α × SymbolTable) :
    Prop :=
  ∀ w, m { w with scopes := s } =
    ((view (m' w).1).1, { (m' w).2 with scopes := (view (m' w).1).2 })

lemma runs_pure {a : α} {b : β} (h : view b = (a, s)) : Runs s (pure a) (pure b) view := by
  intro w
  have hb : (pure b : Analyzer β) w = (b, w) := rfl
  rw [hb, h]
  rfl

lemma runs_bind {f : α → Analyzer γ} {f' : β → Analyzer δ} {view' : δ → γ × SymbolTable}
    (hm : Runs s m m' view) (hf : ∀ b, Runs (view b).2 (f (view b).1) (f' b) view') :
    Runs s (m >>= f) (m' >>= f') view' := by
  intro w
  rw [bind_run, bind_run, hm w]
  exact hf (m' w).1 (m' w).2

/-- A change of the stack is not seen on the other side. -/
lemma runs_rescope {g : SymbolTable → SymbolTable} {f : Unit → Analyzer α}
    (h : Runs (g s) (f ()) m' view) : Runs s (rescope g >>= f) m' view := by
  intro w
  rw [bind_run]
  exact h w

/-- The other side may hand on something else, as long as it is viewed alike. -/
lemma runs_answer {b : γ} {view' : γ → α × SymbolTable} (hm : Runs s m m' view)
    (h : ∀ b', view b' = view' b) : Runs s m (m' >>= fun _ => pure b) view' := by
  intro w
  rw [hm w, h]
  rfl

/-- The other side knows the answer beforehand. -/
lemma runs_bind_pure {b : β} {f : α → Analyzer γ} {m' : Analyzer δ} {view' : δ → γ × SymbolTable}
    (hm : Runs s m (pure b) view) (hf : Runs (view b).2 (f (view b).1) m' view') :
    Runs s (m >>= f) m' view' := by
  intro w
  rw [bind_run, hm w]
  exact hf w

/-- A plain step neither reads nor changes the stack. -/
lemma runs_plain (hm : Plain true m) (s : SymbolTable) : Runs s m m fun a => (a, s) := by
  intro w
  have hcongruent : Congruent fun v w : Walk => v = { w with scopes := s } :=
    { inference := by rintro _ w rfl; rfl
      infer := by rintro _ w f rfl; rfl
      report := by rintro _ w r _ rfl; rfl
      valid := by rintro _ w ty rfl; rfl
      constructor := by rintro _ w name rfl; rfl }
  obtain ⟨hanswer, hafter⟩ := hm.respects hcongruent _ w rfl
  exact Prod.ext hanswer hafter

/-- Both sides take the same plain step. -/
lemma runs_plain_bind {f : α → Analyzer β} {f' : α → Analyzer γ} {view : γ → β × SymbolTable}
    (hm : Plain true m) (hf : ∀ a, Runs s (f a) (f' a) view) : Runs s (m >>= f) (m >>= f') view :=
  runs_bind (runs_plain hm s) hf

/-- A plain step before a change of the stack. -/
lemma runs_plain_rescope {m : Analyzer Unit} (hm : Plain true m) (s : SymbolTable)
    (g : SymbolTable → SymbolTable) :
    Runs s (m >>= fun _ => rescope g) m fun _ => ((), g s) := by
  intro w
  rw [bind_run, runs_plain hm s w]
  rfl

/-- A stack with one more scope on top. -/
def atop (s : SymbolTable) (symbols : Env) (visible : Bool) : SymbolTable :=
  { s with inner := ⟨symbols, visible, s.depth⟩ :: s.inner }

/-- The names that can be seen from a stack are those of an environment. -/
def Presents (s : SymbolTable) (env : Env) : Prop :=
  ∀ name, s.lookup? name = Env.lookup? env name

lemma presents_initial : Presents SymbolTable.initial Library.symbols := by
  intro name
  unfold SymbolTable.lookup? SymbolTable.scopes SymbolTable.initial
  rw [List.nil_append, List.filter_cons_of_pos rfl, List.filter_nil, List.findSome?_singleton]
  rfl

lemma Presents.atop_hidden (h : Presents s env) (symbols : Env) :
    Presents (atop s symbols false) env := h

lemma Presents.atop_visible (h : Presents s env) (symbols : Env) :
    Presents (atop s symbols true) (symbols ++ env) := by
  intro name
  have hlookup : (atop s symbols true).lookup? name =
      ((Env.lookup? symbols name).or (s.lookup? name)) := by
    unfold SymbolTable.lookup? SymbolTable.scopes atop
    rw [List.cons_append, List.filter_cons_of_pos rfl, List.findSome?_cons]
    unfold Scope.get? Env.lookup?
    cases symbols.find? fun symbol => symbol.name == name <;> rfl
  rw [hlookup, h name]
  unfold Env.lookup?
  rw [List.find?_append]

lemma runs_define (s : SymbolTable) (symbols : Env) (visible : Bool) (symbol : Symbol) :
    Runs (atop s symbols visible) (define symbol) (declare symbols symbol)
      fun symbols' => ((), atop s symbols' visible) := by
  intro w
  have hget : (atop s symbols visible).current.get? symbol.name =
      Env.lookup? symbols symbol.name := rfl
  have hwalk : (get : Analyzer Walk) { w with scopes := atop s symbols visible } =
      ({ w with scopes := atop s symbols visible },
        { w with scopes := atop s symbols visible }) := rfl
  unfold define
  rw [bind_run, hwalk]
  unfold SymbolTable.insert declare
  rw [hget]
  cases Env.lookup? symbols symbol.name <;> rfl

/-- A use of a name, looked up on a stack or in the environment that it presents. -/
lemma runs_useOf (h : Presents s env) (name : String) (site : Site) :
    Runs s (useOf name site) (resolveUse env name site) fun a => (a, s) := by
  intro w
  have hrun : useOf name site { w with scopes := s } =
      resolveUse env name site { w with scopes := s } := by
    unfold resolveUse
    rw [← h name]
    rfl
  rw [hrun]
  exact runs_plain (plain_resolveUse env name site) s w

lemma runs_constrainUse (h : Presents s env) {step : Tag → Analyzer Unit}
    {f : Option Tag → Analyzer α}
    (hf : ∀ used, Runs s (f used) (forSome used step >>= fun _ => m') view) :
    Runs s (useOf name site >>= f) (constrainUse env name site step >>= fun _ => m') view := by
  have hassoc : (constrainUse env name site step >>= fun _ => m') =
      resolveUse env name site >>= fun used => forSome used step >>= fun _ => m' := rfl
  rw [hassoc]
  exact runs_bind (runs_useOf h name site) hf

/-- A pattern adds its names to the scope on top, as it does without a stack. -/
def PatternRuns (p : Pattern) : Prop :=
  ∀ s symbols visible, Runs (atop s symbols visible) p.analyze (elaboratePattern p symbols)
    fun r => (r.1, atop s r.2 visible)

lemma runs_patterns {ps : List Pattern} (h : ∀ p ∈ ps, PatternRuns p) (s : SymbolTable)
    (symbols : Env) (visible : Bool) :
    Runs (atop s symbols visible) (Pattern.analyzeList ps) (elaboratePatterns ps symbols)
      fun r => (r.1, atop s r.2 visible) := by
  induction ps generalizing symbols with
  | nil => exact runs_pure rfl
  | cons p ps ih =>
    refine runs_bind (h p (by simp) s symbols visible) fun first => ?_
    refine runs_bind (ih (fun q hq => h q (by simp [hq])) first.2) fun others => ?_
    exact runs_pure rfl

lemma pattern_runs : PatternCases PatternRuns where
  constr _ _ _ ih s symbols visible := by
    refine runs_plain_bind (.tempFor _ _) fun p => ?_
    refine runs_bind (runs_patterns ih s symbols visible) fun r => ?_
    exact runs_plain_bind (plain_construct _ _ _ _) fun _ => runs_pure rfl
  const _ _ s symbols visible := by
    refine runs_plain_bind (.tempFor _ _) fun p => ?_
    exact runs_plain_bind (plain_spec _ _) fun _ => runs_pure rfl
  var _ _ s symbols visible := by
    refine runs_plain_bind (.tempFor _ _) fun p => ?_
    exact runs_bind (runs_define s symbols visible _) fun _ => runs_pure rfl

lemma runs_defineAll (ds : List Def) (s : SymbolTable) (symbols : Env) (visible : Bool) :
    Runs (atop s symbols visible) (Def.defineAll ds) (declareDefs ds symbols)
      fun symbols' => ((), atop s symbols' visible) := by
  induction ds generalizing symbols with
  | nil => exact runs_pure rfl
  | cons d ds ih =>
    have hall : Def.defineAll (d :: ds) = (do
        let temp ← d.temp
        define ⟨d.name, d.symbolKind, d.declaredType?, some temp, d.site.span⟩
        Def.defineAll ds) := rfl
    rw [hall]
    refine runs_plain_bind (.tempFor _ _) fun temp => ?_
    exact runs_bind (runs_define s symbols visible _) fun symbols' => ih symbols'

lemma paramDefine_eq (function : String) (param : Param) :
    Param.define function param = (do
      let p ← tempFor param.site.id param.ty
      checkParam function param
      define ⟨param.name, .parameter, param.ty, some p, param.site.span⟩
      pure p) := by
  unfold Param.define checkParam
  refine congrArg _ (funext fun p => ?_)
  by_cases hname : param.name = function
  · simp only [if_pos hname]
  · simp only [if_neg hname, pure_bind]

lemma runs_defineParams (function : String) (ps : List Param) (s : SymbolTable)
    (symbols : Env) (visible : Bool) :
    Runs (atop s symbols visible) (ps.mapM (Param.define function))
      (declareParams function ps symbols) fun r => (r.1, atop s r.2 visible) := by
  induction ps generalizing symbols with
  | nil => exact runs_pure rfl
  | cons p ps ih =>
    rw [List.mapM_cons, paramDefine_eq, bind_assoc]
    refine runs_plain_bind (.tempFor _ _) fun t => ?_
    rw [bind_assoc]
    refine runs_plain_bind (plain_checkParam _ _) fun _ => ?_
    rw [bind_assoc]
    refine runs_bind (runs_define s symbols visible _) fun symbols' => ?_
    rw [pure_bind]
    exact runs_bind (ih symbols') fun others => runs_pure rfl

/-- An expression leaves the stack as it finds it. -/
def ExprRuns (e : Expr) : Prop :=
  ∀ s env, Presents s env → Runs s e.analyze (elaborateExpr e env) fun t => (t, s)

def DefRuns (d : Def) : Prop :=
  ∀ s env, Presents s env → Runs s d.analyze (elaborateDef d env) fun _ => ((), s)

lemma runs_exprs {es : List Expr} (h : ∀ e ∈ es, ExprRuns e) (hs : Presents s env) :
    Runs s (Expr.analyzeList es) (elaborateExprs es env) fun ts => (ts, s) := by
  induction es with
  | nil => exact runs_pure rfl
  | cons e es ih =>
    refine runs_bind (h e (by simp) s env hs) fun first => ?_
    exact runs_bind (ih fun x hx => h x (by simp [hx])) fun others => runs_pure rfl

lemma runs_sizes {es : List Expr} (h : ∀ e ∈ es, ExprRuns e) (hs : Presents s env) :
    Runs s (Expr.analyzeSizes es) (elaborateSizes es env) fun _ => ((), s) := by
  induction es with
  | nil => exact runs_pure rfl
  | cons e es ih =>
    refine runs_bind (h e (by simp) s env hs) fun size => ?_
    exact runs_plain_bind (plain_spec _ _) fun _ => ih fun x hx => h x (by simp [hx])

lemma runs_clauses {cs : List Clause} (h : ∀ c ∈ cs, ExprRuns c.body) (hs : Presents s env)
    (result scrutinee : Tag) :
    Runs s (Clause.analyzeList result scrutinee cs)
      (elaborateClauses cs result scrutinee env) fun _ => ((), s) := by
  induction cs with
  | nil => exact runs_pure rfl
  | cons c cs ih =>
    obtain ⟨site, pattern, body⟩ := c
    refine runs_rescope ?_
    refine runs_bind (pattern_runs.pattern pattern s [] true) fun p => ?_
    refine runs_plain_bind (plain_same _ _) fun _ => ?_
    refine runs_bind (h _ List.mem_cons_self _ _ (hs.atop_visible p.2)) fun b => ?_
    refine runs_plain_bind (plain_same _ _) fun _ => runs_rescope ?_
    exact ih fun x hx => h x (by simp [hx])

lemma runs_defs {ds : List Def} (h : ∀ d ∈ ds, DefRuns d) (hs : Presents s env) :
    Runs s (Def.analyzeList ds) (elaborateDefs ds env) fun _ => ((), s) := by
  induction ds with
  | nil => exact runs_pure rfl
  | cons d ds ih =>
    exact runs_bind (h d (by simp) s env hs) fun _ => ih fun x hx => h x (by simp [hx])

/-- A let group leaves one more scope, with the names that it defines. -/
lemma runs_group {g : LetGroup} (h : ∀ d ∈ g.defs, DefRuns d) (hs : Presents s env) :
    Runs s g.analyze (elaborateGroup g env) fun symbols => ((), atop s symbols true) := by
  obtain ⟨site, isRec, ds⟩ := g
  cases isRec with
  | true =>
    refine runs_rescope ?_
    refine runs_bind (runs_defineAll ds s [] true) fun symbols => ?_
    exact runs_answer (runs_defs h (hs.atop_visible symbols)) fun _ => rfl
  | false =>
    refine runs_rescope (runs_rescope ?_)
    refine runs_bind (runs_defs h (hs.atop_hidden [])) fun _ => runs_rescope ?_
    exact runs_defineAll ds s [] true

lemma exprRuns_forLoop {counter : String} {first : Expr} {down : Bool} {last body : Expr}
    (hf : ExprRuns first) (hl : ExprRuns last) (hb : ExprRuns body) :
    ExprRuns (.forLoop site counter first down last body) := by
  intro s env hs
  refine runs_plain_bind (.tempFor _ _) fun t => ?_
  refine runs_bind (hf s env hs) fun f => runs_bind (hl s env hs) fun l => ?_
  refine runs_plain_bind (plain_spec _ _) fun _ => runs_plain_bind (plain_spec _ _) fun _ => ?_
  refine runs_rescope (runs_plain_bind (.aux _ _) fun c => ?_)
  -- The scope of the counter is new, so its name is not taken.
  have hdefine := runs_define s [] true ⟨counter, .var, some .int, some c, site.span⟩
  refine runs_bind_pure hdefine ?_
  refine runs_bind (hb _ _ (hs.atop_visible [_])) fun b => runs_rescope ?_
  refine runs_plain_bind (plain_spec _ _) fun _ => runs_plain_bind (plain_spec _ _) fun _ => ?_
  exact runs_pure rfl

lemma exprRuns_dim {dimension : Int} : ExprRuns (.dim site dimension name) := by
  intro s env hs
  have hchecked : (Expr.dim site dimension name).analyze = (do
      let t ← tempFor site.id none
      checkDimension dimension name site.span
      let a ← useOf name site
      forSome a fun a => oneOf a [.array]
      spec t .int
      pure t) := by
    rw [Expr.analyze]
    unfold checkDimension
    refine congrArg _ (funext fun t => ?_)
    by_cases h : dimension < 1
    · simp only [if_pos h]
      refine congrArg _ (funext fun _ => congrArg _ (funext fun a => ?_))
      cases a <;> rfl
    · simp only [if_neg h, pure_bind]
      refine congrArg _ (funext fun a => ?_)
      cases a <;> rfl
  rw [hchecked]
  refine runs_plain_bind (.tempFor _ _) fun t => ?_
  refine runs_plain_bind (plain_checkDimension _ _ _) fun _ => ?_
  refine runs_constrainUse hs fun a => ?_
  refine runs_plain_bind (plain_forSome fun _ => plain_oneOf _ _) fun _ => ?_
  exact runs_plain_bind (plain_spec _ _) fun _ => runs_pure rfl

lemma defRuns_function {params : List Param} {result : Option Ty} {body : Expr}
    (hb : ExprRuns body) : DefRuns (.function site name params result body) := by
  intro s env hs
  refine runs_plain_bind (plain_forM (fun _ => plain_validateOption _ _ _) _) fun _ => ?_
  refine runs_plain_bind (plain_validateResult _ _ _) fun _ => ?_
  refine runs_plain_bind (.tempFor _ _) fun f => runs_rescope ?_
  refine runs_bind (runs_defineParams name params s [] true) fun ps => ?_
  refine runs_bind (hb _ _ (hs.atop_visible ps.2)) fun b => ?_
  cases result with
  | none => exact runs_plain_rescope (plain_spec _ _) _ _
  | some ty =>
    refine runs_plain_bind (plain_spec _ _) fun _ => ?_
    exact runs_plain_rescope (plain_spec _ _) _ _

/-- Every expression and every definition does on a stack what it does in the environment that
the stack presents. -/
lemma tree_runs : TreeCases ExprRuns DefRuns where
  binary _ _ _ _ hl hr s env hs := by
    refine runs_plain_bind (.tempFor _ _) fun t => ?_
    refine runs_bind (hl s env hs) fun l => runs_bind (hr s env hs) fun r => ?_
    exact runs_plain_bind (plain_relate _ _ _ _) fun _ => runs_pure rfl
  unary _ _ _ h s env hs := by
    refine runs_plain_bind (.tempFor _ _) fun t => runs_bind (h s env hs) fun o => ?_
    exact runs_plain_bind (plain_relateUnary _ _ _) fun _ => runs_pure rfl
  construct _ _ _ h s env hs := by
    refine runs_plain_bind (.tempFor _ _) fun t => runs_bind (runs_exprs h hs) fun args => ?_
    exact runs_plain_bind (plain_construct _ _ _ _) fun _ => runs_pure rfl
  element _ _ _ h s env hs := by
    refine runs_plain_bind (.tempFor _ _) fun t => runs_bind (runs_sizes h hs) fun _ => ?_
    refine runs_plain_bind (.aux _ _) fun element => runs_constrainUse hs fun a => ?_
    cases a with
    | none => exact runs_plain_bind (plain_spec _ _) fun _ => runs_pure rfl
    | some a =>
      refine runs_plain_bind (plain_spec _ _) fun _ => ?_
      exact runs_plain_bind (plain_spec _ _) fun _ => runs_pure rfl
  const _ _ s env hs := by
    refine runs_plain_bind (.tempFor _ _) fun t => ?_
    exact runs_plain_bind (plain_spec _ _) fun _ => runs_pure rfl
  constr _ _ s env hs := by
    refine runs_plain_bind (.tempFor _ _) fun t => ?_
    exact runs_plain_bind (plain_construct _ _ _ _) fun _ => runs_pure rfl
  var _ _ s env hs := by
    refine runs_plain_bind (.tempFor _ _) fun t => runs_constrainUse hs fun a => ?_
    cases a with
    | none => exact runs_pure rfl
    | some a => exact runs_plain_bind (plain_same _ _) fun _ => runs_pure rfl
  delete _ _ h s env hs := by
    refine runs_plain_bind (.tempFor _ _) fun t => runs_bind (h s env hs) fun e => ?_
    refine runs_plain_bind (.aux _ _) fun inner => runs_plain_bind (plain_spec _ _) fun _ => ?_
    exact runs_plain_bind (plain_spec _ _) fun _ => runs_pure rfl
  dim _ _ _ := exprRuns_dim
  forLoop _ _ _ _ _ _ := exprRuns_forLoop
  call _ _ _ h s env hs := by
    refine runs_plain_bind (.tempFor _ _) fun t => runs_bind (runs_exprs h hs) fun args => ?_
    refine runs_constrainUse hs fun f => ?_
    cases f with
    | none => exact runs_pure rfl
    | some f => exact runs_plain_bind (plain_spec _ _) fun _ => runs_pure rfl
  letIn _ _ _ hg hb s env hs := by
    refine runs_plain_bind (.tempFor _ _) fun t => runs_bind (runs_group hg hs) fun symbols => ?_
    refine runs_bind (hb _ _ (hs.atop_visible symbols)) fun b => runs_rescope ?_
    exact runs_plain_bind (plain_same _ _) fun _ => runs_pure rfl
  ifThen _ _ _ hc hp s env hs := by
    refine runs_plain_bind (.tempFor _ _) fun t => runs_bind (hc s env hs) fun c => ?_
    refine runs_plain_bind (plain_spec _ _) fun _ => runs_bind (hp s env hs) fun p => ?_
    refine runs_plain_bind (plain_spec _ _) fun _ => ?_
    exact runs_plain_bind (plain_spec _ _) fun _ => runs_pure rfl
  ifElse _ _ _ _ hc hp hn s env hs := by
    refine runs_plain_bind (.tempFor _ _) fun t => runs_bind (hc s env hs) fun c => ?_
    refine runs_plain_bind (plain_spec _ _) fun _ => runs_bind (hp s env hs) fun p => ?_
    refine runs_bind (hn s env hs) fun n => runs_plain_bind (plain_same _ _) fun _ => ?_
    exact runs_plain_bind (plain_same _ _) fun _ => runs_pure rfl
  matchWith _ _ _ hs' hc s env hs := by
    refine runs_plain_bind (.tempFor _ _) fun t => runs_bind (hs' s env hs) fun scrutinee => ?_
    exact runs_bind (runs_clauses hc hs _ _) fun _ => runs_pure rfl
  new _ _ s env hs := by
    refine runs_plain_bind (.tempFor _ _) fun t => runs_plain_bind (.validate _ _ _) fun _ => ?_
    exact runs_plain_bind (plain_spec _ _) fun _ => runs_pure rfl
  whileLoop _ _ _ hc hb s env hs := by
    refine runs_plain_bind (.tempFor _ _) fun t => runs_bind (hc s env hs) fun c => ?_
    refine runs_bind (hb s env hs) fun b => runs_plain_bind (plain_spec _ _) fun _ => ?_
    refine runs_plain_bind (plain_spec _ _) fun _ => ?_
    exact runs_plain_bind (plain_spec _ _) fun _ => runs_pure rfl
  function _ _ _ _ _ := defRuns_function
  constant _ _ _ _ hb s env hs := by
    refine runs_plain_bind (plain_validateOption _ _ _) fun _ => ?_
    refine runs_plain_bind (.tempFor _ _) fun c => runs_bind (hb s env hs) fun b => ?_
    exact runs_plain (plain_same _ _) s
  mutableVar _ _ _ s env hs := by
    refine runs_plain_bind (.tempFor _ _) fun _ => ?_
    exact runs_plain (plain_validateMutable _ _ _) s
  mutableArray _ _ _ _ hd s env hs := by
    refine runs_bind (runs_sizes hd hs) fun _ => runs_plain_bind (.tempFor _ _) fun _ => ?_
    exact runs_plain (plain_validateMutable _ _ _) s

lemma runs_typeGroup (group : TypeGroup) (s : SymbolTable) :
    Runs s group.analyze group.analyze fun _ => ((), s) := by
  intro w
  rw [typeGroup_run, typeGroup_run]

lemma runs_definitions (ds : List Definition) (hs : Presents s env) :
    Runs s (do ds.forM Definition.analyze; rescope SymbolTable.closeAll)
      (elaborateDefinitions ds env) fun _ => ((), s.closeAll) := by
  induction ds generalizing s env with
  | nil => exact runs_rescope (f := pure) (runs_pure rfl)
  | cons d ds ih =>
    have hcons : (do (d :: ds).forM Definition.analyze; rescope SymbolTable.closeAll) = (do
        d.analyze
        ds.forM Definition.analyze
        rescope SymbolTable.closeAll) := rfl
    rw [hcons]
    cases d with
    | lets group =>
      refine runs_bind (runs_group (tree_runs.group group) hs) fun symbols => ?_
      exact ih (hs.atop_visible symbols)
    | types group => exact runs_bind (runs_typeGroup group s) fun _ => ih hs

/-- From whatever stack it starts, elaboration does what the walk does from the stack that holds
the library alone. -/
lemma runs_program (program : Program) :
    Runs SymbolTable.initial program.walk (elaborateProgram program)
      fun _ => ((), SymbolTable.initial) :=
  runs_definitions program.definitions presents_initial

/-- The placeholders and constraints of an analysis. -/
def collected (analysis : Analysis) : Inference :=
  ⟨Inference.firstTag, analysis.temps, analysis.constraints, #[]⟩

section

variable (program : Program) (types : TypeTable) (firstTag : Tag) (solver : Solver)

lemma walk_initial : program.walk (Walk.initial types firstTag) =
    ((), { (elaborateProgram program (Walk.initial types firstTag)).2 with
      scopes := SymbolTable.initial }) :=
  runs_program program (Walk.initial types firstTag)

lemma analyze_eq : program.analyze types firstTag solver =
    let w := (elaborateProgram program (Walk.initial types firstTag)).2
    let conclusion := w.inference.conclude solver (TypeSlots.ofCount program.nodeCount) w.types
    (⟨conclusion.slots, w.inference.constraints, w.inference.temps, conclusion.outstanding⟩,
      w.types, w.reports.toList ++ conclusion.errors.map .semantic) := by
  have hrun : program.analyze types firstTag solver =
      let w := (program.walk (Walk.initial types firstTag)).2
      let conclusion := w.inference.conclude solver (TypeSlots.ofCount program.nodeCount) w.types
      (⟨conclusion.slots, w.inference.constraints, w.inference.temps, conclusion.outstanding⟩,
        w.types, w.reports.toList ++ conclusion.errors.map .semantic) := rfl
  rw [hrun, walk_initial]

lemma collected_analyze : collected (program.analyze types firstTag solver).1 =
    { (elaborateProgram program (Walk.initial types firstTag)).2.inference with
      next := Inference.firstTag, pending := #[] } := by
  rw [analyze_eq]
  rfl

lemma analyze_reports : (program.analyze types firstTag solver).2.2 =
    (elaborateProgram program (Walk.initial types firstTag)).2.reports.toList ++
      ((elaborateProgram program (Walk.initial types firstTag)).2.inference.conclude solver
        (TypeSlots.ofCount program.nodeCount)
        (elaborateProgram program (Walk.initial types firstTag)).2.types).errors.map .semantic := by
  rw [analyze_eq]

end

end Llama.Proofs
