import Llama.Proofs.Satisfaction
import Llama.Tree.Node

/-!
# Soundness of the constraints

Fix an assignment and the types that nodes carry. `Sound m P` says that a step `m` establishes
`P`, provided that nothing is reported as an error and that the assignment is a model of all that
inference has collected in the end. The annotations of the source reach the assignment through
the placeholders that are made with them, so a node must not be given the placeholder of another.
-/

namespace Llama.Proofs

open Analyzer

variable {α β : Type} {node : NodeId} {hint : Option Ty} {P : α → Prop} {ds : List Def}

/-- The type that the source gives to a node. -/
def declaredAt? : Node → Option Ty
  | .param p => p.ty
  | .definition d => d.declaredType?
  | _ => none

/-- A mutable variable or array is given its type in the source. -/
def isAnnotated : Node → Bool
  | .definition (.mutableVar _ _ ty) | .definition (.mutableArray _ _ _ ty) => ty.isSome
  | _ => true

/-- All nodes are given types as `given` says, and every mutable one is given a type. -/
def Annotated (given : NodeId → Option Ty) (nodes : List Node) : Prop :=
  ∀ n ∈ nodes, given n.site.id = declaredAt? n ∧ isAnnotated n = true

/-- Placeholders are constrained to their hints, which are those that the source gives to their
nodes. -/
structure Hinted (given : NodeId → Option Ty) (i : Inference) : Prop where
  spec : ∀ temp ∈ i.temps.toList, ∀ ty ∈ temp.hint,
    .spec temp.tag ty.toTerm ∈ i.constraints.toList
  given : ∀ temp ∈ i.temps.toList, temp.primary = true → temp.hint = given temp.node

/-- No error is reported. -/
def Clean (w : Walk) : Prop := ∀ r ∈ w.reports.toList, r.severity ≠ .error

section

variable {given : NodeId → Option Ty} {i : Inference}

lemma Clean.of_extends {v w : Walk} (h : Extends v w) (hw : Clean w) : Clean v :=
  fun r hr => hw r (h.reports.subset hr)

lemma Hinted.newTemp (h : Hinted given i) {primary : Bool}
    (hhint : primary = true → hint = given node) :
    Hinted given (i.newTemp node hint primary).2 := by
  refine ⟨fun temp ht ty hty => ?_, fun temp ht hprimary => ?_⟩
  · rw [newTemp_temps] at ht
    rw [newTemp_constraints]
    rcases List.mem_append.mp ht with hold | hnew
    · exact List.mem_append_left _ (h.spec temp hold ty hty)
    · obtain rfl := List.mem_singleton.mp hnew
      have hsome : hint = some ty := hty
      rw [hsome]
      exact List.mem_append_right _ List.mem_cons_self
  · rw [newTemp_temps] at ht
    rcases List.mem_append.mp ht with hold | hnew
    · exact h.given temp hold hprimary
    · obtain rfl := List.mem_singleton.mp hnew
      exact hhint hprimary

lemma Hinted.tempFor (h : Hinted given i) (hhint : hint = given node) :
    Hinted given (i.tempFor node hint).2 := by
  unfold Inference.tempFor
  cases i.primary? node with
  | some tag => exact h
  | none => exact h.newTemp fun _ => hhint

end

section

variable (given : NodeId → Option Ty) (θ : Tag → Ty) (σ : Decoration) (Δ : Signature)

def Sound (m : Analyzer α) (P : α → Prop) : Prop :=
  ∀ w, w.types = Δ.table → w.passed = Δ.passed → Hinted given w.inference →
    Extends w (m w).2 ∧ Hinted given (m w).2.inference ∧
      (Clean (m w).2 → Model θ σ (m w).2.inference → P (m w).1)

variable {given θ σ Δ}

lemma sound_pure {a : α} (h : P a) : Sound given θ σ Δ (pure a) P :=
  fun w _ _ hhinted => ⟨.refl w, hhinted, fun _ _ => h⟩

lemma sound_bind {m : Analyzer α} {f : α → Analyzer β} {Q : β → Prop} (hm : Sound given θ σ Δ m P)
    (hf : ∀ a, Sound given θ σ Δ (f a) fun b => P a → Q b) : Sound given θ σ Δ (m >>= f) Q := by
  intro w htypes hpassed hhinted
  obtain ⟨hext, hhinted', hP⟩ := hm w htypes hpassed hhinted
  obtain ⟨hext', hhinted'', hQ⟩ := hf (m w).1 (m w).2 (hext.types.trans htypes)
    (hext.passed.trans hpassed) hhinted'
  rw [bind_run]
  refine ⟨hext.trans hext', hhinted'', fun hclean hmodel => ?_⟩
  exact hQ hclean hmodel (hP (hclean.of_extends hext') (hmodel.of_grows hext'.inference))

lemma Sound.mono {m : Analyzer α} {Q : α → Prop} (h : Sound given θ σ Δ m P)
    (hPQ : ∀ a, P a → Q a) : Sound given θ σ Δ m Q := by
  intro w htypes hpassed hhinted
  obtain ⟨hext, hhinted', hP⟩ := h w htypes hpassed hhinted
  exact ⟨hext, hhinted', fun hclean hmodel => hPQ _ (hP hclean hmodel)⟩

lemma sound_tempFor (hhint : given node = hint) :
    Sound given θ σ Δ (tempFor node hint) fun t => σ node = θ t ∧ ∀ ty ∈ hint, θ t = ty := by
  intro w _ _ hhinted
  have hplain : Plain true (tempFor node hint) := .tempFor node hint
  have hafter : Hinted given (tempFor node hint w).2.inference := hhinted.tempFor hhint.symm
  refine ⟨hplain.extends_run w, hafter, fun _ hmodel => ?_⟩
  have htag := tempFor_primary? w.inference node hint
  refine ⟨hmodel.primary node _ htag, fun ty hty => ?_⟩
  obtain ⟨temp, hmem, hprimary, rfl, htag⟩ := exists_temp_of_primary? htag
  have hanswer : (tempFor temp.node hint w).1 = temp.tag := htag.symm
  rw [hanswer]
  have hspec := hafter.spec temp hmem ty (by rw [hafter.given temp hmem hprimary, hhint]; exact hty)
  simpa using hmodel.constraints _ hspec

lemma sound_aux (node : NodeId) (hint : Option Ty) :
    Sound given θ σ Δ (aux node hint) fun t => ∀ ty ∈ hint, θ t = ty := by
  intro w _ _ hhinted
  have hplain : Plain true (aux node hint) := .aux node hint
  refine ⟨hplain.extends_run w, hhinted.newTemp nofun, fun _ hmodel ty hty => ?_⟩
  have hspec : .spec w.inference.next ty.toTerm ∈
      (w.inference.newTemp node hint false).2.constraints.toList := by
    have hsome : hint = some ty := hty
    rw [newTemp_constraints, hsome]
    exact List.mem_append_right _ List.mem_cons_self
  have hholds := hmodel.constraints _ hspec
  rw [Constraint.Holds, Ty.subst_toTerm] at hholds
  exact hholds

lemma sound_emits {m : Analyzer Unit} {cs : List Constraint} (h : Emits m cs) :
    Sound given θ σ Δ m fun _ => ∀ c ∈ cs, c.Holds θ := by
  intro w _ _ hhinted
  obtain ⟨hconstraints, htemps, -⟩ := foldl_constrain cs w.inference
  have hgrows : Grows w.inference (cs.foldl Inference.constrain w.inference) :=
    ⟨by simp [htemps], by simp [hconstraints]⟩
  rw [h w]
  refine ⟨.infer hgrows, ⟨fun temp ht ty hty => ?_, fun temp ht => ?_⟩, fun _ hmodel c hc => ?_⟩
  · rw [htemps] at ht
    exact hgrows.constraints.subset (hhinted.spec temp ht ty hty)
  · rw [htemps] at ht
    exact hhinted.given temp ht
  · refine hmodel.constraints c ?_
    rw [hconstraints]
    exact List.mem_append_right _ hc

lemma sound_spec (target : Tag) (term : Term) :
    Sound given θ σ Δ (spec target term) fun _ => θ target = term.subst θ :=
  (sound_emits (emits_spec target term)).mono fun _ h => h _ List.mem_cons_self

lemma sound_same (left right : Tag) :
    Sound given θ σ Δ (same left right) fun _ => θ left = θ right :=
  (sound_emits (emits_same left right)).mono fun _ h => h _ List.mem_cons_self

/-- Where nothing is reported as an error, an error is not reported. -/
lemma sound_report (r : Report) :
    Sound given θ σ Δ (report r) fun _ => r.severity ≠ .error :=
  fun w _ _ hhinted => ⟨.report w r, hhinted, fun hclean _ => hclean r (by simp [report, modify,
    modifyGet, MonadStateOf.modifyGet, StateT.modifyGet, pure])⟩

lemma sound_problem (e : SemanticError) {P : Unit → Prop} :
    Sound given θ σ Δ (problem e) P :=
  (sound_report (.semantic e)).mono fun _ h => absurd rfl h

lemma sound_forSome {value : Option α} {step : α → Analyzer Unit}
    (h : ∀ a ∈ value, Sound given θ σ Δ (step a) fun _ => P a) :
    Sound given θ σ Δ (forSome value step) fun _ => ∀ a ∈ value, P a := by
  cases value with
  | none => exact sound_pure nofun
  | some a => exact (h a rfl).mono fun _ ha b hb => Option.some.inj hb ▸ ha

lemma sound_forM {step : α → Analyzer Unit} {l : List α}
    (h : ∀ a, Sound given θ σ Δ (step a) fun _ => P a) :
    Sound given θ σ Δ (l.forM step) fun _ => ∀ a ∈ l, P a := by
  induction l with
  | nil => exact sound_pure nofun
  | cons a l ih =>
    exact sound_bind (h a) fun _ => ih.mono fun _ hl ha => List.forall_mem_cons.mpr ⟨ha, hl⟩

lemma sound_validate (ty : Ty) (name : String) (span : Span) :
    Sound given θ σ Δ (validate ty name span) fun _ => Δ.Valid ty := by
  intro w htypes hpassed hhinted
  have hplain : Plain true (validate ty name span) := .validate ty name span
  have hext := hplain.extends_run w
  rw [validate_run] at hext ⊢
  cases hvalid : w.types.validateWithin ty w.passed with
  | ok =>
    refine ⟨.refl w, hhinted, fun _ _ => ?_⟩
    rw [htypes, hpassed] at hvalid
    exact hvalid
  | error cause =>
    refine ⟨.report w _, hhinted, fun hclean _ => ?_⟩
    exact absurd rfl (hclean (.semantic (.invalidType cause name span)) (by simp))

lemma sound_validateOption (ty : Option Ty) (name : String) (span : Span) :
    Sound given θ σ Δ (validateOption ty name span) fun _ => ∀ ty' ∈ ty, Δ.Valid ty' := by
  cases ty with
  | none => exact sound_pure nofun
  | some ty =>
    exact (sound_validate ty name span).mono fun _ h ty' hty' => Option.some.inj hty' ▸ h

lemma sound_checkDimension (dimension : Int) (name : String) (span : Span) :
    Sound given θ σ Δ (checkDimension dimension name span) fun _ => 1 ≤ dimension := by
  unfold checkDimension
  by_cases hdimension : dimension < 1
  · rw [if_pos hdimension]
    exact sound_problem _
  · rw [if_neg hdimension]
    exact sound_pure (by omega)

lemma sound_checkParam (function : String) (param : Param) :
    Sound given θ σ Δ (checkParam function param) fun _ => True := by
  unfold checkParam
  by_cases hname : param.name = function
  · rw [if_pos hname]
    exact (sound_report _).mono fun _ _ => trivial
  · rw [if_neg hname]
    exact sound_pure trivial

lemma sound_validateResult (result : Option Ty) (name : String) (span : Span) :
    Sound given θ σ Δ (validateResult result name span) fun _ =>
      ∀ ty ∈ result, ty.isArray = false ∧ Δ.Valid ty := by
  cases result with
  | none => exact sound_pure nofun
  | some ty =>
    cases harray : ty.isArray with
    | true =>
      have hrun : validateResult (some ty) name span =
          problem (.invalidType .arrayReturn name span) := by simp [validateResult, harray]
      rw [hrun]
      exact sound_problem _
    | false =>
      have hrun : validateResult (some ty) name span = validate ty name span := by
        simp [validateResult, harray]
      rw [hrun]
      refine (sound_validate ty name span).mono fun _ h ty' hty' => ?_
      obtain rfl : ty = ty' := Option.some.inj hty'
      exact ⟨harray, h⟩

lemma sound_constructorOf (name : String) (span : Span) :
    Sound given θ σ Δ (constructorOf name span) fun found =>
      ∃ info, found = some info ∧ Δ.constructor? name = some info := by
  intro w htypes hpassed hhinted
  rw [constructorOf_run]
  cases hfound : w.types.constructorWithin? name w.passed with
  | some info =>
    refine ⟨.refl w, hhinted, fun _ _ => ⟨info, rfl, ?_⟩⟩
    rw [htypes, hpassed] at hfound
    exact hfound
  | none =>
    refine ⟨.report w _, hhinted, fun hclean _ => ?_⟩
    exact absurd rfl (hclean (.semantic (.unknownConstructor name span)) (by simp))

lemma map_eq_of_mem_zip {args : List Tag} {tys : List Ty} (hlength : tys.length = args.length)
    (h : ∀ a ∈ args.zip tys, θ a.1 = a.2) : args.map θ = tys := by
  induction args generalizing tys with
  | nil => exact (List.eq_nil_of_length_eq_zero hlength).symm
  | cons tag args ih =>
    cases tys with
    | nil => cases hlength
    | cons ty tys =>
      obtain ⟨hfirst, hrest⟩ := List.forall_mem_cons.mp h
      have hlengths : tys.length = args.length := Nat.succ.inj hlength
      rw [List.map_cons, ih hlengths hrest, hfirst]

lemma sound_checkArity (args : List Tag) (info : ConstructorInfo) (span : Span) :
    Sound given θ σ Δ (checkArity args info span) fun _ => info.args.length = args.length := by
  by_cases hlength : info.args.length = args.length
  · rw [checkArity, if_neg (not_not.mpr hlength)]
    exact sound_pure hlength
  · rw [checkArity, if_pos hlength]
    exact sound_problem _

/-- A constructor is used with as many arguments as it is declared with, all of the declared
types. -/
lemma sound_construct (target : Tag) (name : String) (args : List Tag) (span : Span) :
    Sound given θ σ Δ (construct target name args span) fun _ =>
      ∃ info, Δ.constructor? name = some info ∧ θ target = .user info.owner ∧
        args.map θ = info.args := by
  have hfound : ∀ info, Sound given θ σ Δ
      (do checkArity args info span; constructFound target args info) fun _ =>
      θ target = .user info.owner ∧ args.map θ = info.args := by
    intro info
    refine sound_bind (sound_checkArity args info span) fun _ => ?_
    refine sound_bind (sound_spec target (.user info.owner)) fun _ => ?_
    refine (sound_forM fun (a : Tag × Ty) => sound_spec a.1 a.2.toTerm).mono ?_
    intro _ hargs htarget hlength
    refine ⟨htarget, map_eq_of_mem_zip hlength fun a ha => ?_⟩
    rw [hargs a ha, Ty.subst_toTerm]
  rw [construct_eq]
  refine sound_bind (sound_constructorOf name span) fun found => ?_
  refine (sound_forSome fun info _ => hfound info).mono fun _ h => ?_
  rintro ⟨info, hsome, hinfo⟩
  exact ⟨info, hinfo, h info hsome⟩

lemma sound_resolveUse (env : Env) (name : String) (site : Site) :
    Sound given θ σ Δ (resolveUse env name site) fun used =>
      ∀ Γ, Fits θ env Γ → ∃ t, used = some t ∧ Γ.lookup name = some (θ t) := by
  unfold resolveUse
  cases hfound : Env.lookup? env name with
  | none =>
    refine sound_bind (P := fun _ => False) (sound_problem _) fun _ => ?_
    exact sound_pure False.elim
  | some symbol =>
    have htype : ∀ Γ, Fits θ env Γ → ∃ τ, Γ.lookup name = some τ ∧ symbolType? θ symbol = some τ :=
      fun Γ hfits => hfits.exists_type hfound
    obtain ⟨name', kind, ty, temp, span⟩ := symbol
    cases temp with
    | some tag =>
      refine sound_pure fun Γ hfits => ⟨tag, rfl, ?_⟩
      simpa [symbolType?] using htype Γ hfits
    | none =>
      cases ty with
      | none => exact sound_pure fun Γ hfits => by simpa [symbolType?] using htype Γ hfits
      | some ty =>
        refine sound_bind (sound_aux site.id (some ty)) fun t => sound_pure fun ht Γ hfits => ?_
        refine ⟨t, rfl, ?_⟩
        rw [ht ty rfl]
        simpa [symbolType?] using htype Γ hfits

lemma sound_constrainUse (env : Env) (name : String) (site : Site) {step : Tag → Analyzer Unit}
    {cs : Tag → List Constraint} (h : ∀ t, Emits (step t) (cs t)) :
    Sound given θ σ Δ (constrainUse env name site step) fun _ =>
      ∀ Γ, Fits θ env Γ → ∃ t, Γ.lookup name = some (θ t) ∧ ∀ c ∈ cs t, c.Holds θ := by
  refine sound_bind (sound_resolveUse env name site) fun used => ?_
  refine (sound_forSome fun t _ => sound_emits (h t)).mono fun _ hholds hused Γ hfits => ?_
  obtain ⟨t, hsome, hlookup⟩ := hused Γ hfits
  exact ⟨t, hlookup, hholds t hsome⟩

lemma sound_declare (scope : Env) (symbol : Symbol) :
    Sound given θ σ Δ (declare scope symbol) fun scope' =>
      ∀ Γ τ, Fits θ scope Γ → symbolType? θ symbol = some τ →
        Fits θ scope' (Γ ++ [(symbol.name, τ)]) := by
  intro w _ _ hhinted
  have hinference : (declare scope symbol w).2.inference = w.inference := by
    unfold declare
    cases Env.lookup? scope symbol.name <;> rfl
  refine ⟨(plain_declare scope symbol).extends_run w, ?_, fun _ _ Γ τ hfits hτ => ?_⟩
  · rw [hinference]
    exact hhinted
  · exact binds_declare hfits hτ w

end

section

variable {given : NodeId → Option Ty}

lemma Annotated.append {ns ns' : List Node} (h : Annotated given (ns ++ ns')) :
    Annotated given ns ∧ Annotated given ns' :=
  List.forall_mem_append.mp h

lemma Annotated.self {n : Node} (h : Annotated given [n]) :
    given n.site.id = declaredAt? n ∧ isAnnotated n = true :=
  h n List.mem_cons_self

variable (given) (θ : Tag → Ty) (σ : Decoration) (Δ : Signature)

def PatternSound (p : Pattern) : Prop :=
  Annotated given p.nodes → ∀ scope, Sound given θ σ Δ (elaboratePattern p scope) fun r =>
    PatternTyped σ Δ p (θ r.1) ∧
      ∀ Γ, Fits θ scope Γ → Fits θ r.2 (Γ ++ siteContext σ p.bindings)

def ExprSound (e : Expr) : Prop :=
  Annotated given e.nodes → ∀ env, Sound given θ σ Δ (elaborateExpr e env) fun t =>
    ∀ Γ, Fits θ env Γ → HasType σ Δ Γ e (θ t)

def DefSound (d : Def) : Prop :=
  Annotated given d.nodes → ∀ env, Sound given θ σ Δ (elaborateDef d env) fun _ =>
    ∀ Γ, Fits θ env Γ → DefTyped σ Δ Γ d

variable {given θ σ Δ}

lemma sound_patterns {ps : List Pattern} (h : ∀ p ∈ ps, PatternSound given θ σ Δ p)
    (hann : Annotated given (Pattern.nodesOfList ps)) (scope : Env) :
    Sound given θ σ Δ (elaboratePatterns ps scope) fun r =>
      PatternsTyped σ Δ ps (r.1.map θ) ∧
        ∀ Γ, Fits θ scope Γ → Fits θ r.2 (Γ ++ siteContext σ (Pattern.bindingsOfList ps)) := by
  induction ps generalizing scope with
  | nil =>
    refine sound_pure ⟨.nil, fun Γ hfits => ?_⟩
    simpa [Pattern.bindingsOfList, siteContext] using hfits
  | cons p ps ih =>
    obtain ⟨hfirst, hrest⟩ := Annotated.append hann
    refine sound_bind (h p (by simp) hfirst scope) fun first => ?_
    refine sound_bind (ih (fun q hq => h q (by simp [hq])) hrest first.2) fun others => ?_
    refine sound_pure fun hothers hp => ⟨.cons hp.1 hothers.1, fun Γ hfits => ?_⟩
    simpa [Pattern.bindingsOfList, siteContext] using hothers.2 _ (hp.2 Γ hfits)

lemma pattern_sound : PatternCases (PatternSound given θ σ Δ) where
  constr site name args ih hann scope := by
    obtain ⟨hargs, hself⟩ := Annotated.append hann
    refine sound_bind (sound_tempFor hself.self.1) fun p => ?_
    refine sound_bind (sound_patterns ih hargs scope) fun r => ?_
    refine sound_bind (sound_construct p name r.1 site.span) fun _ => ?_
    refine sound_pure fun hconstruct hr hp => ?_
    obtain ⟨info, hinfo, howner, htypes⟩ := hconstruct
    rw [htypes] at hr
    rw [howner] at hp ⊢
    exact ⟨.constr hp.1 hinfo hr.1, hr.2⟩
  const site value hann scope := by
    refine sound_bind (sound_tempFor hann.self.1) fun p => ?_
    refine sound_bind (sound_spec p value.ty.toTerm) fun _ => ?_
    refine sound_pure fun hspec hp => ?_
    rw [Ty.subst_toTerm] at hspec
    rw [hspec] at hp ⊢
    exact ⟨.const hp.1, fun Γ hfits => by simpa [Pattern.bindings, siteContext] using hfits⟩
  var site name hann scope := by
    refine sound_bind (sound_tempFor hann.self.1) fun p => ?_
    refine sound_bind (sound_declare scope _) fun scope' => ?_
    refine sound_pure fun hdeclare hp => ⟨.var hp.1, fun Γ hfits => ?_⟩
    have hall := hdeclare Γ (θ p) hfits rfl
    rw [← hp.1] at hall
    exact hall

lemma HasType.cast {Γ : Context} {e : Expr} {τ τ' : Ty} (h : HasType σ Δ Γ e τ) (hτ : τ = τ') :
    HasType σ Δ Γ e τ' :=
  hτ ▸ h

lemma sound_exprs {es : List Expr} (h : ∀ e ∈ es, ExprSound given θ σ Δ e)
    (hann : Annotated given (Expr.nodesOfList es)) (env : Env) :
    Sound given θ σ Δ (elaborateExprs es env) fun ts =>
      ∀ Γ, Fits θ env Γ → HaveTypes σ Δ Γ es (ts.map θ) := by
  induction es with
  | nil => exact sound_pure fun Γ _ => .nil
  | cons e es ih =>
    obtain ⟨hfirst, hrest⟩ := Annotated.append hann
    refine sound_bind (h e (by simp) hfirst env) fun t => ?_
    refine sound_bind (ih (fun x hx => h x (by simp [hx])) hrest) fun ts => ?_
    exact sound_pure fun hts ht Γ hfits => .cons (ht Γ hfits) (hts Γ hfits)

lemma sound_sizes {es : List Expr} (h : ∀ e ∈ es, ExprSound given θ σ Δ e)
    (hann : Annotated given (Expr.nodesOfList es)) (env : Env) :
    Sound given θ σ Δ (elaborateSizes es env) fun _ =>
      ∀ Γ, Fits θ env Γ → ∀ e ∈ es, HasType σ Δ Γ e .int := by
  induction es with
  | nil => exact sound_pure fun Γ _ => nofun
  | cons e es ih =>
    obtain ⟨hfirst, hrest⟩ := Annotated.append hann
    refine sound_bind (h e (by simp) hfirst env) fun t => ?_
    refine sound_bind (sound_spec t .int) fun _ => ?_
    refine (ih (fun x hx => h x (by simp [hx])) hrest).mono fun _ hes hspec ht Γ hfits => ?_
    exact List.forall_mem_cons.mpr ⟨(ht Γ hfits).cast hspec, hes Γ hfits⟩

lemma sound_clauses {cs : List Clause} (h : ∀ c ∈ cs, ExprSound given θ σ Δ c.body)
    (hann : Annotated given (Clause.nodesOfList cs)) (result scrutinee : Tag) (env : Env) :
    Sound given θ σ Δ (elaborateClauses cs result scrutinee env) fun _ =>
      ∀ Γ, Fits θ env Γ → ∀ c ∈ cs, PatternTyped σ Δ c.pattern (θ scrutinee) ∧
        HasType σ Δ (siteContext σ c.pattern.bindings ++ Γ) c.body (θ result) := by
  induction cs with
  | nil => exact sound_pure fun Γ _ => nofun
  | cons c cs ih =>
    obtain ⟨site, pattern, body⟩ := c
    obtain ⟨hfirst, hrest⟩ := Annotated.append hann
    obtain ⟨hpattern, hbody⟩ := Annotated.append (Annotated.append hfirst).1
    refine sound_bind (pattern_sound.pattern pattern hpattern []) fun p => ?_
    refine sound_bind (sound_same p.1 scrutinee) fun _ => ?_
    refine sound_bind (h _ List.mem_cons_self hbody (p.2 ++ env)) fun b => ?_
    refine sound_bind (sound_same result b) fun _ => ?_
    refine (ih (fun x hx => h x (by simp [hx])) hrest).mono ?_
    intro _ hcs hresult hb hscrutinee hp Γ hfits
    rw [hscrutinee] at hp
    have hscope : Fits θ p.2 (siteContext σ pattern.bindings) := hp.2 [] binds_nil
    have hb' := hb _ (hscope.append hfits)
    rw [← hresult] at hb'
    exact List.forall_mem_cons.mpr ⟨⟨hp.1, hb'⟩, hcs Γ hfits⟩

/-- The names of definitions are declared with the types that their nodes carry. -/
lemma sound_declareDefs (hgiven : ∀ d ∈ ds, given d.site.id = d.declaredType?) (scope : Env) :
    Sound given θ σ Δ (declareDefs ds scope) fun scope' =>
      ∀ Γ, Fits θ scope Γ → Fits θ scope' (Γ ++ defContext σ ds) := by
  induction ds generalizing scope with
  | nil =>
    refine sound_pure fun Γ hfits => ?_
    simpa [defContext] using hfits
  | cons d ds ih =>
    refine sound_bind (sound_tempFor (hgiven d (by simp))) fun t => ?_
    refine sound_bind (sound_declare scope _) fun scope' => ?_
    refine (ih (fun x hx => hgiven x (by simp [hx])) scope').mono ?_
    intro scope'' hrest hdeclare ht Γ hfits
    have hfirst := hdeclare Γ (θ t) hfits rfl
    rw [← ht.1] at hfirst
    simpa [defContext] using hrest _ hfirst

lemma sound_declareParams (function : String) {ps : List Param}
    (hgiven : ∀ p ∈ ps, given p.site.id = p.ty) (scope : Env) :
    Sound given θ σ Δ (declareParams function ps scope) fun r =>
      r.1.map θ = ps.map (fun p => σ p.site.id) ∧ (∀ p ∈ ps, ∀ ty ∈ p.ty, σ p.site.id = ty) ∧
        ∀ Γ, Fits θ scope Γ → Fits θ r.2 (Γ ++ paramContext σ ps) := by
  induction ps generalizing scope with
  | nil =>
    refine sound_pure ⟨rfl, nofun, fun Γ hfits => ?_⟩
    simpa [paramContext] using hfits
  | cons p ps ih =>
    refine sound_bind (sound_tempFor (hgiven p (by simp))) fun t => ?_
    refine sound_bind (sound_checkParam function p) fun _ => ?_
    refine sound_bind (sound_declare scope _) fun scope' => ?_
    refine sound_bind (ih (fun x hx => hgiven x (by simp [hx])) scope') fun others => ?_
    refine sound_pure fun hothers hdeclare _ ht => ?_
    obtain ⟨htags, htypes, hrest⟩ := hothers
    refine ⟨by simp [htags, ht.1], ?_, fun Γ hfits => ?_⟩
    · exact List.forall_mem_cons.mpr ⟨fun ty hty => ht.1.trans (ht.2 ty hty), htypes⟩
    · have hfirst := hdeclare Γ (θ t) hfits rfl
      rw [← ht.1] at hfirst
      simpa [paramContext] using hrest _ hfirst

lemma definition_mem_nodes (d : Def) : .definition d ∈ d.nodes := by
  cases d with
  | mutableVar => exact List.mem_cons_self
  | _ => exact List.mem_append_right _ List.mem_cons_self

lemma Annotated.defs (h : Annotated given (Def.nodesOfList ds)) :
    ∀ d ∈ ds, Annotated given d.nodes := by
  induction ds with
  | nil => nofun
  | cons d ds ih =>
    obtain ⟨hfirst, hrest⟩ := Annotated.append h
    exact List.forall_mem_cons.mpr ⟨hfirst, ih hrest⟩

lemma sound_defs (h : ∀ d ∈ ds, DefSound given θ σ Δ d) (hann : ∀ d ∈ ds, Annotated given d.nodes)
    (env : Env) :
    Sound given θ σ Δ (elaborateDefs ds env) fun _ =>
      ∀ Γ, Fits θ env Γ → ∀ d ∈ ds, DefTyped σ Δ Γ d := by
  induction ds with
  | nil => exact sound_pure fun Γ _ => nofun
  | cons d ds ih =>
    refine sound_bind (h d (by simp) (hann d (by simp)) env) fun _ => ?_
    refine (ih (fun x hx => h x (by simp [hx])) fun x hx => hann x (by simp [hx])).mono ?_
    exact fun _ hds hd Γ hfits => List.forall_mem_cons.mpr ⟨hd Γ hfits, hds Γ hfits⟩

lemma sound_group {g : LetGroup} (h : ∀ d ∈ g.defs, DefSound given θ σ Δ d)
    (hann : Annotated given g.nodes) (env : Env) :
    Sound given θ σ Δ (elaborateGroup g env) fun scope =>
      Fits θ scope (defContext σ g.defs) ∧
        ∀ Γ, Fits θ env Γ → ∀ d ∈ g.defs, DefTyped σ Δ (groupContext σ g Γ) d := by
  obtain ⟨site, isRec, ds⟩ := g
  have hdefs : ∀ d ∈ ds, Annotated given d.nodes := (Annotated.append hann).1.defs
  have hgiven : ∀ d ∈ ds, given d.site.id = d.declaredType? := fun d hd =>
    (hdefs d hd _ (definition_mem_nodes d)).1
  cases isRec with
  | true =>
    refine sound_bind (sound_declareDefs hgiven []) fun scope => ?_
    refine sound_bind (sound_defs h hdefs (scope ++ env)) fun _ => ?_
    refine sound_pure fun hds hscope => ?_
    have hown : Fits θ scope (defContext σ ds) := hscope [] binds_nil
    exact ⟨hown, fun Γ hfits => hds _ (hown.append hfits)⟩
  | false =>
    refine sound_bind (sound_defs h hdefs env) fun _ => ?_
    refine (sound_declareDefs hgiven []).mono fun scope hscope hds => ?_
    exact ⟨hscope [] binds_nil, hds⟩

lemma exprSound_forLoop {site : Site} {counter : String} {first : Expr} {down : Bool}
    {last body : Expr} (hf : ExprSound given θ σ Δ first) (hl : ExprSound given θ σ Δ last)
    (hb : ExprSound given θ σ Δ body) :
    ExprSound given θ σ Δ (.forLoop site counter first down last body) := by
  intro hann env
  obtain ⟨hparts, hself⟩ := Annotated.append hann
  obtain ⟨hbounds, hbody⟩ := hparts.append
  obtain ⟨hfirst, hlast⟩ := hbounds.append
  refine sound_bind (sound_tempFor hself.self.1) fun t => ?_
  refine sound_bind (hf hfirst env) fun f => sound_bind (hl hlast env) fun l => ?_
  refine sound_bind (sound_spec f .int) fun _ => sound_bind (sound_spec l .int) fun _ => ?_
  refine sound_bind (sound_aux site.id (some .int)) fun c => ?_
  refine sound_bind (hb hbody _) fun b => ?_
  refine sound_bind (sound_spec b .unit) fun _ => sound_bind (sound_spec t .unit) fun _ => ?_
  refine sound_pure fun hunit hbunit hb hc hlint hfint hl hf ht Γ hfits => ?_
  have hcounter : Fits θ [⟨counter, .var, some .int, some c, site.span⟩] [(counter, .int)] :=
    binds_singleton (congrArg some (hc .int rfl))
  have hb' := (hb _ (hcounter.append hfits)).cast hbunit
  exact (HasType.forLoop (ht.1.trans hunit) ((hf Γ hfits).cast hfint)
    ((hl Γ hfits).cast hlint) hb').cast hunit.symm

lemma defSound_function {site : Site} {name : String} {params : List Param}
    {result : Option Ty} {body : Expr} (ih : ExprSound given θ σ Δ body) :
    DefSound given θ σ Δ (.function site name params result body) := by
  intro hann env
  obtain ⟨hparts, hself⟩ := Annotated.append hann
  obtain ⟨hparams, hbody⟩ := hparts.append
  have hgiven : ∀ p ∈ params, given p.site.id = p.ty := fun p hp =>
    (hparams _ (List.mem_map_of_mem hp)).1
  refine sound_bind (sound_forM fun (p : Param) =>
    sound_validateOption p.ty p.name p.site.span) fun _ => ?_
  refine sound_bind (sound_validateResult result name site.span) fun _ => ?_
  refine sound_bind (sound_tempFor hself.self.1) fun f => ?_
  refine sound_bind (sound_declareParams name hgiven []) fun ps => ?_
  refine sound_bind (ih hbody (ps.2 ++ env)) fun b => ?_
  refine sound_bind (sound_forSome fun ty _ => sound_spec b ty.toTerm) fun _ => ?_
  refine (sound_spec f _).mono fun _ hspec hresult hb hps hf hvalid hvalids Γ hfits => ?_
  obtain ⟨htags, htypes, hscope⟩ := hps
  rw [Term.subst_curried, htags] at hspec
  have hown : Fits θ ps.2 (paramContext σ params) := hscope [] binds_nil
  refine .function (hf.1.trans hspec) ?_ ?_ (hb _ (hown.append hfits))
  · exact fun p hp ty hty => ⟨hvalids p hp ty hty, htypes p hp ty hty⟩
  · intro ty hty
    have hτ := hresult ty hty
    rw [Ty.subst_toTerm] at hτ
    exact ⟨(hvalid ty hty).1, (hvalid ty hty).2, hτ.symm⟩

/-- Whatever satisfies the constraints of an expression or a definition types it. -/
lemma tree_sound : TreeCases (ExprSound given θ σ Δ) (DefSound given θ σ Δ) where
  const site value hann env := by
    refine sound_bind (sound_tempFor hann.self.1) fun t => ?_
    refine sound_bind (sound_spec t value.ty.toTerm) fun _ => ?_
    refine sound_pure fun hspec ht Γ _ => ?_
    rw [Ty.subst_toTerm] at hspec
    rw [hspec] at ht ⊢
    exact .const ht.1
  var site name hann env := by
    refine sound_bind (sound_tempFor hann.self.1) fun t => ?_
    refine sound_bind (sound_constrainUse env name site fun s => emits_same t s) fun _ => ?_
    refine sound_pure fun huse ht Γ hfits => ?_
    obtain ⟨s, hlookup, hsame⟩ := huse Γ hfits
    have hst : θ t = θ s := hsame _ List.mem_cons_self
    exact .var ht.1 (hst ▸ hlookup)
  constr site name hann env := by
    refine sound_bind (sound_tempFor hann.self.1) fun t => ?_
    refine sound_bind (sound_construct t name [] site.span) fun _ => ?_
    refine sound_pure fun hconstruct ht Γ _ => ?_
    obtain ⟨info, hinfo, howner, hargs⟩ := hconstruct
    rw [howner] at ht ⊢
    exact .constr ht.1 hinfo hargs.symm
  construct site name args ih hann env := by
    obtain ⟨hargs, hself⟩ := Annotated.append hann
    refine sound_bind (sound_tempFor hself.self.1) fun t => ?_
    refine sound_bind (sound_exprs ih hargs env) fun ts => ?_
    refine sound_bind (sound_construct t name ts site.span) fun _ => ?_
    refine sound_pure fun hconstruct hts ht Γ hfits => ?_
    obtain ⟨info, hinfo, howner, htypes⟩ := hconstruct
    rw [howner] at ht ⊢
    exact .construct ht.1 hinfo (htypes ▸ hts Γ hfits)
  call site name args ih hann env := by
    obtain ⟨hargs, hself⟩ := Annotated.append hann
    refine sound_bind (sound_tempFor hself.self.1) fun t => ?_
    refine sound_bind (sound_exprs ih hargs env) fun ts => ?_
    refine sound_bind (sound_constrainUse env name site fun f => emits_spec f _) fun _ => ?_
    refine sound_pure fun huse hts ht Γ hfits => ?_
    obtain ⟨f, hlookup, hspec⟩ := huse Γ hfits
    have hf : θ f = Ty.curried (ts.map θ) (θ t) :=
      (hspec _ List.mem_cons_self).trans (Term.subst_curried θ ts t)
    exact .call ht.1 (hf ▸ hlookup) (hts Γ hfits)
  element site name indices ih hann env := by
    obtain ⟨hindices, hself⟩ := Annotated.append hann
    refine sound_bind (sound_tempFor hself.self.1) fun t => ?_
    refine sound_bind (sound_sizes ih hindices env) fun _ => ?_
    refine sound_bind (sound_aux site.id none) fun e => ?_
    refine sound_bind (sound_constrainUse env name site fun a => emits_spec a _) fun _ => ?_
    refine sound_bind (sound_spec t (.ref (.temp e))) fun _ => ?_
    refine sound_pure fun href huse _ hints ht Γ hfits => ?_
    obtain ⟨a, hlookup, hspec⟩ := huse Γ hfits
    have ha : θ a = .array (θ e) indices.length := hspec _ List.mem_cons_self
    have ht' : θ t = .ref (θ e) := href
    rw [ht'] at ht ⊢
    exact .element ht.1 (ha ▸ hlookup) (hints Γ hfits)
  dim site dimension name hann env := by
    refine sound_bind (sound_tempFor hann.self.1) fun t => ?_
    refine sound_bind (sound_checkDimension dimension name site.span) fun _ => ?_
    refine sound_bind (sound_constrainUse env name site fun a => emits_oneOf a _) fun _ => ?_
    refine sound_bind (sound_spec t .int) fun _ => ?_
    refine sound_pure fun hint huse hdimension ht Γ hfits => ?_
    obtain ⟨a, hlookup, hkinds⟩ := huse Γ hfits
    have hkind : (θ a).kind = .array := by simpa using hkinds _ List.mem_cons_self
    obtain ⟨τ, dims, ha⟩ := exists_array_of_kind hkind
    exact (HasType.dim (ht.1.trans hint) (ha ▸ hlookup) hdimension).cast hint.symm
  binary site op left right hl hr hann env := by
    obtain ⟨hparts, hself⟩ := Annotated.append hann
    obtain ⟨hleft, hright⟩ := hparts.append
    refine sound_bind (sound_tempFor hself.self.1) fun t => ?_
    refine sound_bind (hl hleft env) fun l => sound_bind (hr hright env) fun r => ?_
    refine sound_bind (sound_emits (emits_relate op t l r)) fun _ => ?_
    refine sound_pure fun hop hr hl ht Γ hfits => ?_
    exact .binary ht.1 (hl Γ hfits) (hr Γ hfits) (binaryTyping_of_holds hop)
  unary site op operand ih hann env := by
    obtain ⟨hoperand, hself⟩ := Annotated.append hann
    refine sound_bind (sound_tempFor hself.self.1) fun t => ?_
    refine sound_bind (ih hoperand env) fun o => ?_
    refine sound_bind (sound_emits (emits_relateUnary op t o)) fun _ => ?_
    refine sound_pure fun hop ho ht Γ hfits => ?_
    exact .unary ht.1 (ho Γ hfits) (unaryTyping_of_holds hop)
  delete site operand ih hann env := by
    obtain ⟨hoperand, hself⟩ := Annotated.append hann
    refine sound_bind (sound_tempFor hself.self.1) fun t => ?_
    refine sound_bind (ih hoperand env) fun e => ?_
    refine sound_bind (sound_aux site.id none) fun inner => ?_
    refine sound_bind (sound_spec e (.ref (.temp inner))) fun _ => ?_
    refine sound_bind (sound_spec t .unit) fun _ => ?_
    refine sound_pure fun hunit href _ he ht Γ hfits => ?_
    exact (HasType.delete (ht.1.trans hunit) ((he Γ hfits).cast href)).cast hunit.symm
  new site ty hann env := by
    refine sound_bind (sound_tempFor hann.self.1) fun t => ?_
    refine sound_bind (sound_validate (.ref ty) "new" site.span) fun _ => ?_
    refine sound_bind (sound_spec t (Ty.ref ty).toTerm) fun _ => ?_
    refine sound_pure fun hspec hvalid ht Γ _ => ?_
    rw [Ty.subst_toTerm] at hspec
    exact (HasType.new (ht.1.trans hspec) hvalid).cast hspec.symm
  forLoop _ _ _ _ _ _ := exprSound_forLoop
  whileLoop site condition body hc hb hann env := by
    obtain ⟨hparts, hself⟩ := Annotated.append hann
    obtain ⟨hcondition, hbody⟩ := hparts.append
    refine sound_bind (sound_tempFor hself.self.1) fun t => ?_
    refine sound_bind (hc hcondition env) fun c => sound_bind (hb hbody env) fun b => ?_
    refine sound_bind (sound_spec c .bool) fun _ => ?_
    refine sound_bind (sound_spec b .unit) fun _ => sound_bind (sound_spec t .unit) fun _ => ?_
    refine sound_pure fun hunit hbunit hcbool hb hc ht Γ hfits => ?_
    exact (HasType.whileLoop (ht.1.trans hunit) ((hc Γ hfits).cast hcbool)
      ((hb Γ hfits).cast hbunit)).cast hunit.symm
  ifThen site condition positive hc hp hann env := by
    obtain ⟨hparts, hself⟩ := Annotated.append hann
    obtain ⟨hcondition, hpositive⟩ := hparts.append
    refine sound_bind (sound_tempFor hself.self.1) fun t => ?_
    refine sound_bind (hc hcondition env) fun c => sound_bind (sound_spec c .bool) fun _ => ?_
    refine sound_bind (hp hpositive env) fun p => sound_bind (sound_spec p .unit) fun _ => ?_
    refine sound_bind (sound_spec t .unit) fun _ => ?_
    refine sound_pure fun hunit hpunit hp hcbool hc ht Γ hfits => ?_
    exact (HasType.ifThen (ht.1.trans hunit) ((hc Γ hfits).cast hcbool)
      ((hp Γ hfits).cast hpunit)).cast hunit.symm
  ifElse site condition positive negative hc hp hn hann env := by
    obtain ⟨hparts, hself⟩ := Annotated.append hann
    obtain ⟨hparts, hnegative⟩ := hparts.append
    obtain ⟨hcondition, hpositive⟩ := hparts.append
    refine sound_bind (sound_tempFor hself.self.1) fun t => ?_
    refine sound_bind (hc hcondition env) fun c => sound_bind (sound_spec c .bool) fun _ => ?_
    refine sound_bind (hp hpositive env) fun p => sound_bind (hn hnegative env) fun n => ?_
    refine sound_bind (sound_same p n) fun _ => sound_bind (sound_same t p) fun _ => ?_
    refine sound_pure fun htp hpn hn hp hcbool hc ht Γ hfits => ?_
    exact .ifElse ht.1 ((hc Γ hfits).cast hcbool) ((hp Γ hfits).cast htp.symm)
      ((hn Γ hfits).cast (htp.trans hpn).symm)
  letIn site group body hg hb hann env := by
    obtain ⟨hparts, hself⟩ := Annotated.append hann
    obtain ⟨hgroup, hbody⟩ := hparts.append
    refine sound_bind (sound_tempFor hself.self.1) fun t => ?_
    refine sound_bind (sound_group hg hgroup env) fun scope => ?_
    refine sound_bind (hb hbody (scope ++ env)) fun b => sound_bind (sound_same t b) fun _ => ?_
    refine sound_pure fun htb hb hscope ht Γ hfits => ?_
    obtain ⟨hown, hdefs⟩ := hscope
    exact .letIn ht.1 (hdefs Γ hfits) ((hb _ (hown.append hfits)).cast htb.symm)
  matchWith site scrutinee clauses hs hc hann env := by
    obtain ⟨hparts, hself⟩ := Annotated.append hann
    obtain ⟨hscrutinee, hclauses⟩ := hparts.append
    refine sound_bind (sound_tempFor hself.self.1) fun t => ?_
    refine sound_bind (hs hscrutinee env) fun s => ?_
    refine sound_bind (sound_clauses hc hclauses t s env) fun _ => ?_
    refine sound_pure fun hcs hs ht Γ hfits => ?_
    exact .matchWith ht.1 (hs Γ hfits) (fun c hc => (hcs Γ hfits c hc).1)
      fun c hc => (hcs Γ hfits c hc).2
  function _ _ _ _ _ := defSound_function
  constant site name ty body ih hann env := by
    obtain ⟨hbody, hself⟩ := Annotated.append hann
    refine sound_bind (sound_validateOption ty name site.span) fun _ => ?_
    refine sound_bind (sound_tempFor hself.self.1) fun c => ?_
    refine sound_bind (ih hbody env) fun b => ?_
    refine (sound_same c b).mono fun _ hsame hb hc hvalid Γ hfits => ?_
    refine .constant (hc.1.trans hsame) (fun ty' hty' => ⟨hvalid ty' hty', ?_⟩) (hb Γ hfits)
    exact (hc.2 ty' hty').symm.trans hsame
  mutableVar site name ty hann env := by
    obtain ⟨hgiven, hsome⟩ := hann.self
    cases ty with
    | none => cases hsome
    | some ty =>
      refine sound_bind (sound_tempFor hgiven) fun t => ?_
      refine (sound_validate (.ref ty) name site.span).mono fun _ hvalid ht Γ _ => ?_
      exact .mutableVar (ht.1.trans (ht.2 _ rfl)) hvalid
  mutableArray site name dims ty ih hann env := by
    obtain ⟨hdims, hself⟩ := Annotated.append hann
    obtain ⟨hgiven, hsome⟩ := hself.self
    cases ty with
    | none => cases hsome
    | some ty =>
      refine sound_bind (sound_sizes ih hdims env) fun _ => ?_
      refine sound_bind (sound_tempFor hgiven) fun t => ?_
      refine (sound_validate (.array ty dims.length) name site.span).mono ?_
      intro _ hvalid ht hints Γ hfits
      exact .mutableArray (ht.1.trans (ht.2 _ rfl)) hvalid (hints Γ hfits)

end

section

variable {given : NodeId → Option Ty} {θ : Tag → Ty} {σ : Decoration}

lemma definitions_sound {ds : List Definition}
    (hann : Annotated given (ds.flatMap Definition.nodes)) (Δ : Signature) (env : Env) (w : Walk)
    (htypes : w.types = Δ.table) (hpassed : w.passed = Δ.passed)
    (hhinted : Hinted given w.inference) :
    let w' := (elaborateDefinitions ds env w).2
    Grows w.inference w'.inference ∧ w.reports.toList <+: w'.reports.toList ∧
      (Clean w' → Model θ σ w'.inference →
        ∀ Γ, Fits θ env Γ → DefinitionsTyped σ Δ Γ ds) := by
  induction ds generalizing Δ env w with
  | nil => exact ⟨.refl _, List.prefix_refl _, fun _ _ Γ _ => .nil⟩
  | cons d ds ih =>
    rw [List.flatMap_cons] at hann
    obtain ⟨hfirst, hrest⟩ := hann.append
    cases d with
    | lets group =>
      obtain ⟨hext, hhinted', hgroup⟩ :=
        sound_group (θ := θ) (σ := σ) (tree_sound.group group) hfirst env w htypes hpassed hhinted
      obtain ⟨hgrows, hreports, hds⟩ := ih hrest Δ ((elaborateGroup group env w).1 ++ env)
        (elaborateGroup group env w).2 (hext.types.trans htypes) (hext.passed.trans hpassed)
        hhinted'
      refine ⟨hext.inference.trans hgrows, hext.reports.trans hreports, ?_⟩
      intro hclean hmodel Γ hfits
      have hclean' : Clean (elaborateGroup group env w).2 := fun r hr =>
        hclean r (hreports.subset hr)
      obtain ⟨hown, hdefs⟩ := hgroup hclean' (hmodel.of_grows hgrows)
      exact .lets (hdefs Γ hfits) (hds hclean hmodel _ (hown.append hfits))
    | types group =>
      have htypes' : (group.analyze w).2.types = (Δ.enter group).table := by
        rw [typeGroup_run, htypes]
        rfl
      have hpassed' : (group.analyze w).2.passed = (Δ.enter group).passed := by
        rw [typeGroup_run, hpassed]
        rfl
      have hinference : (group.analyze w).2.inference = w.inference := by rw [typeGroup_run]
      have hreports' : w.reports.toList <+: (group.analyze w).2.reports.toList := by
        rw [typeGroup_run]
        simp
      obtain ⟨hgrows, hreports, hds⟩ := ih hrest (Δ.enter group) env (group.analyze w).2 htypes'
        hpassed' (hinference.symm ▸ hhinted)
      rw [hinference] at hgrows
      refine ⟨hgrows, hreports'.trans hreports, ?_⟩
      exact fun hclean hmodel Γ hfits => .types (hds hclean hmodel Γ hfits)

/-- A model of what elaboration collects types the program, if nothing is reported as an error. -/
lemma program_sound {program : Program} (hann : Annotated given program.nodes)
    (types : TypeTable) (firstTag : Tag)
    (hclean : Clean (elaborateProgram program (Walk.initial types firstTag)).2)
    (hmodel : Model θ σ (elaborateProgram program (Walk.initial types firstTag)).2.inference) :
    ProgramTyped σ types program := by
  have hhinted : Hinted given (Inference.startingAt firstTag) := ⟨nofun, nofun⟩
  obtain ⟨-, -, htyped⟩ := definitions_sound (θ := θ) (σ := σ) hann ⟨types, []⟩
    Library.symbols (Walk.initial types firstTag) rfl rfl hhinted
  exact htyped hclean hmodel Library.signatures (binds_library fun _ _ => rfl)

end

end Llama.Proofs
