import Llama.Proofs.Elaboration
import Llama.Proofs.TreeInduction
import Mathlib.Tactic.Common

/-!
# Plain steps

Elaboration is put together from a few sorts of steps: it reports, asks for placeholders, adds
constraints, puts off checks, and looks up types and constructors. What each of these respects,
every elaboration respects. Steps that report nothing about the scope of a name are told apart.
-/

namespace Llama.Proofs

open Analyzer

variable {α β : Type} {scoping : Bool}

/-- Whether a report is about the scope of a name. -/
def isScoping : Report → Bool
  | .duplicateName _ | .semantic (.unknownIdentifier _ _) => true
  | _ => false

/-- A step that is put together from those that elaboration takes. Reports about the scope of a
name are made only if `scoping` holds. -/
inductive Plain (scoping : Bool) : ∀ {α : Type}, Analyzer α → Prop
  | pure {α : Type} (a : α) : Plain scoping (pure a)
  | bind {α β : Type} {m : Analyzer α} {f : α → Analyzer β} :
      Plain scoping m → (∀ a, Plain scoping (f a)) → Plain scoping (m >>= f)
  | report (r : Report) (htypes : ∀ e, r ≠ .badTypeDefinition e)
      (hscoping : isScoping r = true → scoping = true) : Plain scoping (report r)
  | constrain (c : Constraint) : Plain scoping (infer fun i => i.constrain c)
  | defer (o : Obligation) : Plain scoping (infer fun i => i.defer o)
  | tempFor (node : NodeId) (hint : Option Ty) : Plain scoping (tempFor node hint)
  | aux (node : NodeId) (hint : Option Ty) : Plain scoping (aux node hint)
  | validate (ty : Ty) (name : String) (span : Span) : Plain scoping (validate ty name span)
  | constructorOf (name : String) (span : Span) : Plain scoping (constructorOf name span)

lemma bind_run (m : Analyzer α) (f : α → Analyzer β) (w : Walk) :
    (m >>= f) w = f (m w).1 (m w).2 := rfl

lemma validate_run (ty : Ty) (name : String) (span : Span) (w : Walk) :
    validate ty name span w =
      match w.types.validateWithin ty w.passed with
      | .ok () => ((), w)
      | .error cause =>
        ((), { w with reports := w.reports.push (.semantic (.invalidType cause name span)) }) := by
  have hrun : validate ty name span w =
      (match w.types.validateWithin ty w.passed with
        | .ok () => pure ()
        | .error cause => problem (.invalidType cause name span) : Analyzer Unit) w := rfl
  rw [hrun]
  cases w.types.validateWithin ty w.passed <;> rfl

lemma constructorOf_run (name : String) (span : Span) (w : Walk) :
    constructorOf name span w =
      match w.types.constructorWithin? name w.passed with
      | some info => (some info, w)
      | none =>
        (none,
          { w with reports := w.reports.push (.semantic (.unknownConstructor name span)) }) := by
  have hrun : constructorOf name span w =
      (match w.types.constructorWithin? name w.passed with
        | some info => pure (some info)
        | none => do
          problem (.unknownConstructor name span)
          pure none : Analyzer (Option ConstructorInfo)) w := rfl
  rw [hrun]
  cases w.types.constructorWithin? name w.passed <;> rfl

lemma plain_spec (target : Tag) (term : Term) : Plain scoping (spec target term) := .constrain _

lemma plain_same (left right : Tag) : Plain scoping (same left right) := .constrain _

lemma plain_oneOf (target : Tag) (kinds : List TyKind) : Plain scoping (oneOf target kinds) :=
  .constrain _

lemma plain_noneOf (target : Tag) (kinds : List TyKind) : Plain scoping (noneOf target kinds) :=
  .constrain _

lemma plain_problem (e : SemanticError)
    (hscoping : isScoping (.semantic e) = true → scoping = true) : Plain scoping (problem e) :=
  .report _ nofun hscoping

lemma plain_ite {c : Prop} [Decidable c] {m m' : Analyzer α} (h : Plain scoping m)
    (h' : Plain scoping m') :
    Plain scoping (if c then m else m') := by
  by_cases hc : c
  · rw [if_pos hc]
    exact h
  · rw [if_neg hc]
    exact h'

lemma plain_forM {step : α → Analyzer Unit} (h : ∀ a, Plain scoping (step a)) (l : List α) :
    Plain scoping (l.forM step) := by
  induction l with
  | nil => exact .pure ()
  | cons a l ih => exact .bind (h a) fun _ => ih

lemma plain_allOf (term : Term) (tags : List Tag) : Plain scoping (allOf term tags) :=
  plain_forM (fun tag => plain_spec tag term) tags

lemma plain_forSome {value : Option α} {step : α → Analyzer Unit}
    (h : ∀ a, Plain scoping (step a)) :
    Plain scoping (forSome value step) := by
  cases value with
  | none => exact .pure ()
  | some a => exact h a

lemma plain_validateOption (ty : Option Ty) (name : String) (span : Span) :
    Plain scoping (validateOption ty name span) := by
  cases ty with
  | none => exact .pure ()
  | some ty => exact .validate ty name span

lemma plain_validateResult (result : Option Ty) (name : String) (span : Span) :
    Plain scoping (validateResult result name span) := by
  cases result with
  | none => exact .pure ()
  | some ty => exact plain_ite (plain_problem _ nofun) (.validate ty name span)

lemma plain_validateMutable (site : Site) (name : String) (ty : Option Ty) :
    Plain scoping (validateMutable site name ty) := by
  cases ty with
  | none => exact .defer _
  | some ty => exact .validate ty name site.span

lemma plain_checkDimension (dimension : Int) (name : String) (span : Span) :
    Plain scoping (checkDimension dimension name span) :=
  plain_ite (plain_problem _ nofun) (.pure ())

lemma plain_checkParam (function : String) (param : Param) :
    Plain scoping (checkParam function param) :=
  plain_ite (.report _ nofun nofun) (.pure ())

/-- What a constructor says of its arguments once it is found. -/
def constructFound (target : Tag) (args : List Tag) (info : ConstructorInfo) : Analyzer Unit := do
  spec target (.user info.owner)
  (args.zip info.args).forM fun (tag, ty) => spec tag ty.toTerm

/-- The number of arguments of a constructor is as declared. -/
def checkArity (args : List Tag) (info : ConstructorInfo) (span : Span) : Analyzer Unit :=
  if info.args.length ≠ args.length then
    problem (.constructorArity info.name info.args.length args.length span)
  else pure ()

lemma construct_eq (target : Tag) (name : String) (args : List Tag) (span : Span) :
    construct target name args span = (do
      let found ← constructorOf name span
      forSome found fun info => do
        checkArity args info span
        constructFound target args info) := by
  unfold construct checkArity constructFound
  refine congrArg _ (funext fun found => ?_)
  cases found with
  | none => rfl
  | some info =>
    by_cases h : info.args.length ≠ args.length
    · simp only [forSome, if_pos h]
    · simp only [forSome, if_neg h, pure_bind]

lemma plain_construct (target : Tag) (name : String) (args : List Tag) (span : Span) :
    Plain scoping (construct target name args span) := by
  rw [construct_eq]
  refine .bind (.constructorOf name span) fun found => plain_forSome fun info => ?_
  refine .bind (plain_ite (plain_problem _ nofun) (.pure ())) fun _ => ?_
  exact .bind (plain_spec _ _) fun _ => plain_forM (fun _ => plain_spec _ _) _

lemma plain_relate (op : BinaryOp) (result left right : Tag) :
    Plain scoping (op.relate result left right) := by
  cases op with
  | seq => exact plain_same _ _
  | assign => exact .bind (plain_spec _ _) fun _ => plain_spec _ _
  | eq | neq | natEq | natNeq =>
    exact .bind (plain_noneOf _ _) fun _ => .bind (plain_same _ _) fun _ => plain_spec _ _
  | lt | le | gt | ge =>
    exact .bind (plain_oneOf _ _) fun _ => .bind (plain_same _ _) fun _ => plain_spec _ _
  | _ => exact plain_allOf _ _

lemma plain_relateUnary (op : UnaryOp) (result operand : Tag) :
    Plain scoping (op.relate result operand) := by
  cases op with
  | deref => exact .bind (plain_noneOf _ _) fun _ => plain_spec _ _
  | not => exact plain_allOf _ _
  | _ => exact .bind (plain_spec _ _) fun _ => plain_same _ _

lemma plain_declare (scope : Env) (symbol : Symbol) : Plain true (declare scope symbol) := by
  unfold declare
  cases Env.lookup? scope symbol.name with
  | none => exact .pure _
  | some previous => exact .bind (.report _ nofun fun _ => rfl) fun _ => .pure _

/-- A second definition of a name hides nothing and is hidden itself. -/
lemma lookup?_append_of_found {scope : Env} {symbol previous : Symbol}
    (h : Env.lookup? scope symbol.name = some previous) (name : String) :
    Env.lookup? (scope ++ [symbol]) name = Env.lookup? scope name := by
  unfold Env.lookup? at h ⊢
  rw [List.find?_append]
  by_cases hname : symbol.name = name
  · rw [hname] at h
    rw [h]
    rfl
  · rw [List.find?_cons_of_neg (by simpa using hname)]
    simp

lemma plain_resolveUse (env : Env) (name : String) (site : Site) :
    Plain true (resolveUse env name site) := by
  unfold resolveUse
  cases Env.lookup? env name with
  | none => exact .bind (plain_problem _ fun _ => rfl) fun _ => .pure _
  | some symbol =>
    obtain ⟨name, kind, ty, temp, span⟩ := symbol
    cases temp with
    | some tag => exact .pure _
    | none =>
      cases ty with
      | none => exact .pure _
      | some ty => exact .bind (.aux _ _) fun _ => .pure _

lemma plain_constrainUse (env : Env) (name : String) (site : Site) {step : Tag → Analyzer Unit}
    (h : ∀ tag, Plain true (step tag)) : Plain true (constrainUse env name site step) :=
  .bind (plain_resolveUse env name site) fun _ => plain_forSome h

lemma plain_patterns {ps : List Pattern}
    (h : ∀ p ∈ ps, ∀ scope, Plain true (elaboratePattern p scope))
    (scope : Env) : Plain true (elaboratePatterns ps scope) := by
  induction ps generalizing scope with
  | nil => exact .pure _
  | cons p ps ih =>
    refine .bind (h p (by simp) scope) fun first => ?_
    exact .bind (ih (fun q hq => h q (by simp [hq])) first.2) fun _ => .pure _

lemma pattern_plain : PatternCases fun p => ∀ scope, Plain true (elaboratePattern p scope) where
  constr _ _ _ ih scope :=
    .bind (.tempFor _ _) fun _ => .bind (plain_patterns ih scope) fun _ =>
      .bind (plain_construct _ _ _ _) fun _ => .pure _
  const _ _ _ := .bind (.tempFor _ _) fun _ => .bind (plain_spec _ _) fun _ => .pure _
  var _ _ _ := .bind (.tempFor _ _) fun _ => .bind (plain_declare _ _) fun _ => .pure _

lemma plain_declareDefs (ds : List Def) (scope : Env) : Plain true (declareDefs ds scope) := by
  induction ds generalizing scope with
  | nil => exact .pure _
  | cons d ds ih => exact .bind (.tempFor _ _) fun _ => .bind (plain_declare _ _) fun _ => ih _

lemma plain_declareParams (function : String) (ps : List Param) (scope : Env) :
    Plain true (declareParams function ps scope) := by
  induction ps generalizing scope with
  | nil => exact .pure _
  | cons p ps ih =>
    refine .bind (.tempFor _ _) fun _ => .bind (plain_checkParam _ _) fun _ => ?_
    exact .bind (plain_declare _ _) fun _ => .bind (ih _) fun _ => .pure _

lemma plain_exprs {es : List Expr} (h : ∀ e ∈ es, ∀ env, Plain true (elaborateExpr e env))
    (env : Env) : Plain true (elaborateExprs es env) := by
  induction es with
  | nil => exact .pure _
  | cons e es ih =>
    refine .bind (h e (by simp) env) fun _ => ?_
    exact .bind (ih fun x hx => h x (by simp [hx])) fun _ => .pure _

lemma plain_sizes {es : List Expr} (h : ∀ e ∈ es, ∀ env, Plain true (elaborateExpr e env))
    (env : Env) : Plain true (elaborateSizes es env) := by
  induction es with
  | nil => exact .pure _
  | cons e es ih =>
    refine .bind (h e (by simp) env) fun _ => .bind (plain_spec _ _) fun _ => ?_
    exact ih fun x hx => h x (by simp [hx])

lemma plain_clauses {cs : List Clause} (h : ∀ c ∈ cs, ∀ env, Plain true (elaborateExpr c.body env))
    (result scrutinee : Tag) (env : Env) :
    Plain true (elaborateClauses cs result scrutinee env) := by
  induction cs with
  | nil => exact .pure _
  | cons c cs ih =>
    obtain ⟨site, pattern, body⟩ := c
    refine .bind (pattern_plain.pattern pattern []) fun p => .bind (plain_same _ _) fun _ => ?_
    refine .bind (h _ List.mem_cons_self _) fun _ => .bind (plain_same _ _) fun _ => ?_
    exact ih fun x hx => h x (by simp [hx])

lemma plain_defs {ds : List Def} (h : ∀ d ∈ ds, ∀ env, Plain true (elaborateDef d env))
    (env : Env) : Plain true (elaborateDefs ds env) := by
  induction ds with
  | nil => exact .pure _
  | cons d ds ih => exact .bind (h d (by simp) env) fun _ => ih fun x hx => h x (by simp [hx])

lemma plain_group {g : LetGroup} (h : ∀ d ∈ g.defs, ∀ env, Plain true (elaborateDef d env))
    (env : Env) : Plain true (elaborateGroup g env) := by
  obtain ⟨site, isRec, ds⟩ := g
  cases isRec with
  | true =>
    exact .bind (plain_declareDefs _ _) fun _ => .bind (plain_defs h _) fun _ => .pure _
  | false => exact .bind (plain_defs h _) fun _ => plain_declareDefs _ _

/-- Every expression and every definition is elaborated in plain steps. -/
lemma tree_plain : TreeCases (fun e => ∀ env, Plain true (elaborateExpr e env))
    (fun d => ∀ env, Plain true (elaborateDef d env)) where
  binary _ _ _ _ hl hr env :=
    .bind (.tempFor _ _) fun _ => .bind (hl env) fun _ => .bind (hr env) fun _ =>
      .bind (plain_relate _ _ _ _) fun _ => .pure _
  unary _ _ _ h env :=
    .bind (.tempFor _ _) fun _ => .bind (h env) fun _ =>
      .bind (plain_relateUnary _ _ _) fun _ => .pure _
  construct _ _ _ h env :=
    .bind (.tempFor _ _) fun _ => .bind (plain_exprs h env) fun _ =>
      .bind (plain_construct _ _ _ _) fun _ => .pure _
  element _ _ _ h env :=
    .bind (.tempFor _ _) fun _ => .bind (plain_sizes h env) fun _ => .bind (.aux _ _) fun _ =>
      .bind (plain_constrainUse _ _ _ fun _ => plain_spec _ _) fun _ =>
        .bind (plain_spec _ _) fun _ => .pure _
  const _ _ _ := .bind (.tempFor _ _) fun _ => .bind (plain_spec _ _) fun _ => .pure _
  constr _ _ _ :=
    .bind (.tempFor _ _) fun _ => .bind (plain_construct _ _ _ _) fun _ => .pure _
  var _ _ _ :=
    .bind (.tempFor _ _) fun _ =>
      .bind (plain_constrainUse _ _ _ fun _ => plain_same _ _) fun _ => .pure _
  delete _ _ h env :=
    .bind (.tempFor _ _) fun _ => .bind (h env) fun _ => .bind (.aux _ _) fun _ =>
      .bind (plain_spec _ _) fun _ => .bind (plain_spec _ _) fun _ => .pure _
  dim _ _ _ _ :=
    .bind (.tempFor _ _) fun _ => .bind (plain_checkDimension _ _ _) fun _ =>
      .bind (plain_constrainUse _ _ _ fun _ => plain_oneOf _ _) fun _ =>
        .bind (plain_spec _ _) fun _ => .pure _
  forLoop _ _ _ _ _ _ hf hl hb env :=
    .bind (.tempFor _ _) fun _ => .bind (hf env) fun _ => .bind (hl env) fun _ =>
      .bind (plain_spec _ _) fun _ => .bind (plain_spec _ _) fun _ => .bind (.aux _ _) fun _ =>
        .bind (hb _) fun _ => .bind (plain_spec _ _) fun _ => .bind (plain_spec _ _) fun _ =>
          .pure _
  call _ _ _ h env :=
    .bind (.tempFor _ _) fun _ => .bind (plain_exprs h env) fun _ =>
      .bind (plain_constrainUse _ _ _ fun _ => plain_spec _ _) fun _ => .pure _
  letIn _ _ _ hg hb env :=
    .bind (.tempFor _ _) fun _ => .bind (plain_group hg env) fun _ => .bind (hb _) fun _ =>
      .bind (plain_same _ _) fun _ => .pure _
  ifThen _ _ _ hc hp env :=
    .bind (.tempFor _ _) fun _ => .bind (hc env) fun _ => .bind (plain_spec _ _) fun _ =>
      .bind (hp env) fun _ => .bind (plain_spec _ _) fun _ => .bind (plain_spec _ _) fun _ =>
        .pure _
  ifElse _ _ _ _ hc hp hn env :=
    .bind (.tempFor _ _) fun _ => .bind (hc env) fun _ => .bind (plain_spec _ _) fun _ =>
      .bind (hp env) fun _ => .bind (hn env) fun _ => .bind (plain_same _ _) fun _ =>
        .bind (plain_same _ _) fun _ => .pure _
  matchWith _ _ _ hs hc env :=
    .bind (.tempFor _ _) fun _ => .bind (hs env) fun _ => .bind (plain_clauses hc _ _ env) fun _ =>
      .pure _
  new _ _ _ :=
    .bind (.tempFor _ _) fun _ => .bind (.validate _ _ _) fun _ => .bind (plain_spec _ _) fun _ =>
      .pure _
  whileLoop _ _ _ hc hb env :=
    .bind (.tempFor _ _) fun _ => .bind (hc env) fun _ => .bind (hb env) fun _ =>
      .bind (plain_spec _ _) fun _ => .bind (plain_spec _ _) fun _ =>
        .bind (plain_spec _ _) fun _ => .pure _
  function _ _ _ _ _ hb _ :=
    .bind (plain_forM (fun _ => plain_validateOption _ _ _) _) fun _ =>
      .bind (plain_validateResult _ _ _) fun _ => .bind (.tempFor _ _) fun _ =>
        .bind (plain_declareParams _ _ _) fun _ => .bind (hb _) fun _ =>
          .bind (plain_forSome fun _ => plain_spec _ _) fun _ => plain_spec _ _
  constant _ _ _ _ hb env :=
    .bind (plain_validateOption _ _ _) fun _ => .bind (.tempFor _ _) fun _ =>
      .bind (hb env) fun _ => plain_same _ _
  mutableVar _ _ _ _ :=
    .bind (.tempFor _ _) fun _ => plain_validateMutable _ _ _
  mutableArray _ _ _ _ hd env :=
    .bind (plain_sizes hd env) fun _ => .bind (.tempFor _ _) fun _ =>
      plain_validateMutable _ _ _

/-! ### What plain steps respect -/

/-- States that plain steps cannot tell apart. -/
structure Congruent (R : Walk → Walk → Prop) : Prop where
  inference : ∀ v w, R v w → v.inference = w.inference
  infer : ∀ v w (f : Inference → Inference), R v w →
    R { v with inference := f v.inference } { w with inference := f w.inference }
  report : ∀ v w r, (∀ e, r ≠ .badTypeDefinition e) → R v w →
    R { v with reports := v.reports.push r } { w with reports := w.reports.push r }
  valid : ∀ v w ty, R v w →
    v.types.validateWithin ty v.passed = w.types.validateWithin ty w.passed
  constructor : ∀ v w name, R v w →
    v.types.constructorWithin? name v.passed = w.types.constructorWithin? name w.passed

/-- From states that cannot be told apart a plain step gives the same answer, and leaves states
that cannot be told apart. -/
theorem Plain.respects {R : Walk → Walk → Prop} (hR : Congruent R) {m : Analyzer α}
    (hm : Plain scoping m) : ∀ v w, R v w → (m v).1 = (m w).1 ∧ R (m v).2 (m w).2 := by
  induction hm with
  | pure a => exact fun v w h => ⟨rfl, h⟩
  | bind _ _ ihm ihf =>
    intro v w h
    obtain ⟨hanswer, hafter⟩ := ihm v w h
    rw [bind_run, bind_run, hanswer]
    exact ihf _ _ _ hafter
  | report r hr _ => exact fun v w h => ⟨rfl, hR.report v w r hr h⟩
  | constrain c => exact fun v w h => ⟨rfl, hR.infer v w (fun i => i.constrain c) h⟩
  | defer o => exact fun v w h => ⟨rfl, hR.infer v w (fun i => i.defer o) h⟩
  | tempFor node hint =>
    intro v w h
    have htag := congrArg (fun i => (Inference.tempFor i node hint).1) (hR.inference v w h)
    exact ⟨htag, hR.infer v w (fun i => (i.tempFor node hint).2) h⟩
  | aux node hint =>
    intro v w h
    have htag := congrArg (fun i => (Inference.aux i node hint).1) (hR.inference v w h)
    exact ⟨htag, hR.infer v w (fun i => (i.aux node hint).2) h⟩
  | validate ty name span =>
    intro v w h
    rw [validate_run, validate_run, hR.valid v w ty h]
    cases w.types.validateWithin ty w.passed with
    | ok => exact ⟨rfl, h⟩
    | error cause => exact ⟨rfl, hR.report v w _ nofun h⟩
  | constructorOf name span =>
    intro v w h
    rw [constructorOf_run, constructorOf_run, hR.constructor v w name h]
    cases w.types.constructorWithin? name w.passed with
    | some info => exact ⟨rfl, h⟩
    | none => exact ⟨rfl, hR.report v w _ nofun h⟩

/-! ### What plain steps leave behind -/

lemma newTemp_temps (i : Inference) (node : NodeId) (hint : Option Ty) (primary : Bool) :
    (i.newTemp node hint primary).2.temps.toList =
      i.temps.toList ++ [⟨i.next, node, hint, primary⟩] := by
  cases hint <;> simp [Inference.newTemp, Inference.specHint, Inference.spec,
    Inference.constrain]

lemma newTemp_constraints (i : Inference) (node : NodeId) (hint : Option Ty) (primary : Bool) :
    (i.newTemp node hint primary).2.constraints.toList =
      i.constraints.toList ++ (hint.map fun ty => .spec i.next ty.toTerm).toList := by
  cases hint <;> simp [Inference.newTemp, Inference.specHint, Inference.spec,
    Inference.constrain]

/-- Inference has gone on and kept what it had collected. -/
structure Grows (i j : Inference) : Prop where
  temps : i.temps.toList <+: j.temps.toList
  constraints : i.constraints.toList <+: j.constraints.toList

namespace Grows

lemma refl (i : Inference) : Grows i i := ⟨List.prefix_refl _, List.prefix_refl _⟩

lemma trans {i j k : Inference} (h : Grows i j) (h' : Grows j k) : Grows i k :=
  ⟨h.temps.trans h'.temps, h.constraints.trans h'.constraints⟩

lemma constrain (i : Inference) (c : Constraint) : Grows i (i.constrain c) :=
  ⟨List.prefix_refl _, by simp [Inference.constrain]⟩

lemma newTemp (i : Inference) (node : NodeId) (hint : Option Ty) (primary : Bool) :
    Grows i (i.newTemp node hint primary).2 := by
  refine ⟨?_, ?_⟩
  · rw [newTemp_temps]
    exact List.prefix_append _ _
  · rw [newTemp_constraints]
    exact List.prefix_append _ _

lemma tempFor (i : Inference) (node : NodeId) (hint : Option Ty) :
    Grows i (i.tempFor node hint).2 := by
  unfold Inference.tempFor
  cases i.primary? node with
  | some tag => exact refl i
  | none => exact newTemp i node hint true

/-- A placeholder stays the primary one of its node. -/
lemma primary? {i j : Inference} (h : Grows i j) {node : NodeId} {tag : Tag}
    (htag : i.primary? node = some tag) : j.primary? node = some tag := by
  obtain ⟨temps, htemps⟩ := h.temps
  unfold Inference.primary? at htag ⊢
  rw [← Array.find?_toList] at htag ⊢
  rw [← htemps, List.find?_append]
  cases hfound : i.temps.toList.find? fun temp => temp.primary && temp.node == node with
  | none => rw [hfound] at htag; cases htag
  | some temp => rw [hfound] at htag; exact htag

end Grows

/-- The placeholder that a node is given is its primary one from then on. -/
lemma tempFor_primary? (i : Inference) (node : NodeId) (hint : Option Ty) :
    (i.tempFor node hint).2.primary? node = some (i.tempFor node hint).1 := by
  unfold Inference.tempFor
  cases h : i.primary? node with
  | some tag => exact h
  | none =>
    have hnone : i.temps.toList.find? (fun temp => temp.primary && temp.node == node) = none := by
      unfold Inference.primary? at h
      rw [← Array.find?_toList] at h
      exact Option.map_eq_none_iff.mp h
    unfold Inference.primary?
    rw [← Array.find?_toList, newTemp_temps, List.find?_append, hnone]
    simp [Inference.newTemp]

/-- What a plain step may do to a state: it only adds. -/
structure Extends (v w : Walk) : Prop where
  scopes : w.scopes = v.scopes
  types : w.types = v.types
  passed : w.passed = v.passed
  inference : Grows v.inference w.inference
  reports : v.reports.toList <+: w.reports.toList

namespace Extends

lemma refl (w : Walk) : Extends w w := ⟨rfl, rfl, rfl, .refl _, List.prefix_refl _⟩

lemma trans {u v w : Walk} (h : Extends u v) (h' : Extends v w) : Extends u w where
  scopes := h'.scopes.trans h.scopes
  types := h'.types.trans h.types
  passed := h'.passed.trans h.passed
  inference := h.inference.trans h'.inference
  reports := h.reports.trans h'.reports

lemma report (w : Walk) (r : Report) : Extends w { w with reports := w.reports.push r } :=
  ⟨rfl, rfl, rfl, .refl _, by simp⟩

lemma infer {w : Walk} {i : Inference} (h : Grows w.inference i) :
    Extends w { w with inference := i } :=
  ⟨rfl, rfl, rfl, h, List.prefix_refl _⟩

end Extends

theorem Plain.extends_run {m : Analyzer α} (hm : Plain scoping m) : ∀ w, Extends w (m w).2 := by
  induction hm with
  | pure a => exact Extends.refl
  | bind _ _ ihm ihf => exact fun w => (ihm w).trans (ihf _ _)
  | report r _ _ => exact fun w => .report w r
  | constrain c => exact fun w => .infer (.constrain _ c)
  | defer o => exact fun w => .infer ⟨List.prefix_refl _, List.prefix_refl _⟩
  | tempFor node hint => exact fun w => .infer (.tempFor _ node hint)
  | aux node hint => exact fun w => .infer (.newTemp _ node hint false)
  | validate ty name span =>
    intro w
    rw [validate_run]
    cases w.types.validateWithin ty w.passed with
    | ok => exact .refl w
    | error cause => exact .report w _
  | constructorOf name span =>
    intro w
    rw [constructorOf_run]
    cases w.types.constructorWithin? name w.passed with
    | some info => exact .refl w
    | none => exact .report w _

/-- Without reports about scopes, those that there are stay the same. -/
theorem Plain.quiet {m : Analyzer α} (hm : Plain scoping m) (h : scoping = false) :
    ∀ w, (m w).2.reports.toList.filter isScoping = w.reports.toList.filter isScoping := by
  induction hm with
  | bind _ _ ihm ihf => exact fun w => (ihf _ _).trans (ihm w)
  | report r _ hr =>
    intro w
    have hother : isScoping r = false := by
      by_contra hscoping
      exact absurd (hr (Bool.not_eq_false _ ▸ hscoping)) (by simp [h])
    have hrun : (Analyzer.report r w).2.reports = w.reports.push r := rfl
    rw [hrun, Array.toList_push, List.filter_append, List.filter_cons_of_neg (by simp [hother])]
    simp
  | validate ty name span =>
    intro w
    rw [validate_run]
    cases w.types.validateWithin ty w.passed with
    | ok => rfl
    | error cause => simp [isScoping]
  | constructorOf name span =>
    intro w
    rw [constructorOf_run]
    cases w.types.constructorWithin? name w.passed with
    | some info => rfl
    | none => simp [isScoping]
  | _ => exact fun w => rfl

lemma reportAll_run (errors : List TypeError) (w : Walk) :
    (errors.forM fun e => report (.badTypeDefinition e) : Analyzer Unit) w =
      ((), { w with reports := w.reports ++ (errors.map .badTypeDefinition).toArray }) := by
  induction errors generalizing w with
  | nil =>
    have hnone : w.reports ++ (#[] : Array Report) = w.reports := Array.append_empty
    rw [List.map_nil, hnone]
    rfl
  | cons e errors ih =>
    have hcons : ((e :: errors).forM fun e => report (.badTypeDefinition e) : Analyzer Unit) w =
        (errors.forM fun e => report (.badTypeDefinition e) : Analyzer Unit)
          { w with reports := w.reports.push (.badTypeDefinition e) } := rfl
    rw [hcons, ih, List.map_cons]
    simp

/-- A type group is entered in the table, its errors are reported, and it counts as passed. -/
lemma typeGroup_run (group : TypeGroup) (w : Walk) :
    group.analyze w =
      ((), { w with
        types := (w.types.enter group).1
        passed := group.site.id :: w.passed
        reports := w.reports ++ ((w.types.enter group).2.map .badTypeDefinition).toArray }) := by
  have hrun : group.analyze w =
      (do
        (w.types.enter group).2.forM fun e => report (.badTypeDefinition e)
        modify fun w => { w with passed := group.site.id :: w.passed } : Analyzer Unit)
        { w with types := (w.types.enter group).1 } := rfl
  rw [hrun, bind_run, reportAll_run]
  rfl

end Llama.Proofs
