import Llama.Proofs.ConstraintCompleteness
import Llama.Proofs.ConstraintSoundness
import Llama.Proofs.ParseOnly
import Llama.Proofs.WellFormedTypes

/-!
# The types that a clean compilation records

A type that the source gives is checked where it stands, against the type groups that were passed
there, and sometimes only after a placeholder was made with it. `Records T m` says of a step `m`
with the type table `T` that if it ends without an error, then all hints and all types without
placeholders that it records are well formed.
-/

namespace Llama.Proofs

open Analyzer

variable {α β : Type} {T : TypeTable} {target : Tag} {node : NodeId} {hint : Option Ty}
  {step : α → Analyzer Unit} {scope env : Env} {tokens : List Token}

/-- All hints and all types without placeholders are well formed. -/
structure Recorded (T : TypeTable) (i : Inference) : Prop where
  hints : ∀ temp ∈ i.temps.toList, ∀ ty ∈ temp.hint, Valid T ty
  specs : ∀ target term ty, .spec target term ∈ i.constraints.toList → term.toTy? = some ty →
    Valid T ty

lemma Ty.toTy?_toTerm (ty : Ty) : ty.toTerm.toTy? = some ty := by
  induction ty with
  | array element dims ih => simp [Ty.toTerm, Term.toTy?, ih]
  | func source target ihs iht => simp [Ty.toTerm, Term.toTy?, ihs, iht]
  | ref inner ih => simp [Ty.toTerm, Term.toTy?, ih]
  | _ => rfl

/-- What the constraint says of types without placeholders is well formed. -/
def Fine (T : TypeTable) (c : Constraint) : Prop :=
  ∀ target term ty, c = .spec target term → term.toTy? = some ty → Valid T ty

lemma fine_type (ty : Ty) (h : Valid T ty) : Fine T (.spec target ty.toTerm) := by
  intro target' term ty' hc hty
  cases hc
  rw [Ty.toTy?_toTerm] at hty
  cases hty
  exact h

lemma fine_open {term : Term} (h : term.toTy? = none) : Fine T (.spec target term) := by
  intro target' term' ty hc hty
  cases hc
  rw [h] at hty
  cases hty

lemma toTy?_curried (params : List Term) (tag : Tag) :
    (Term.curried params (.temp tag)).toTy? = none := by
  induction params with
  | nil => rfl
  | cons param params ih =>
    change (Term.func param (Term.curried params (.temp tag))).toTy? = none
    rw [Term.toTy?, ih]
    cases param.toTy? <;> rfl

lemma Recorded.newTemp {i : Inference} (h : Recorded T i) {primary : Bool}
    (hhint : ∀ ty ∈ hint, Valid T ty) : Recorded T (i.newTemp node hint primary).2 := by
  refine ⟨fun temp ht ty hty => ?_, fun target term ty hc hty => ?_⟩
  · rw [newTemp_temps] at ht
    rcases List.mem_append.mp ht with hold | hnew
    · exact h.hints temp hold ty hty
    · obtain rfl := List.mem_singleton.mp hnew
      exact hhint ty hty
  · rw [newTemp_constraints] at hc
    rcases List.mem_append.mp hc with hold | hnew
    · exact h.specs target term ty hold hty
    · obtain ⟨given, hgiven, hspec⟩ := Option.map_eq_some_iff.mp (Option.mem_toList.mp hnew)
      exact fine_type given (hhint given hgiven) target term ty hspec hty

lemma Recorded.tempFor {i : Inference} (h : Recorded T i) (hhint : ∀ ty ∈ hint, Valid T ty) :
    Recorded T (i.tempFor node hint).2 := by
  unfold Inference.tempFor
  cases i.primary? node with
  | some tag => exact h
  | none => exact h.newTemp hhint

/-! ### Steps that record well-formed types -/

section

variable (T)

/-- A step with the type table `T` that ends without an error establishes `φ`. -/
def Clears (m : Analyzer α) (φ : Prop) : Prop := ∀ w, w.types = T → Clean (m w).2 → φ

/-- A step with the type table `T` that ends without an error records well-formed types only. -/
def Records (m : Analyzer α) : Prop :=
  ∀ w, w.types = T → Extends w (m w).2 ∧
    (Clean (m w).2 → Recorded T w.inference → Recorded T (m w).2.inference)

end

variable {m : Analyzer α} {f : α → Analyzer β} {φ : Prop}

lemma Clears.bind (hm : Clears T m φ) (hf : ∀ a, Plain true (f a)) : Clears T (m >>= f) φ :=
  fun w htypes hclean => hm w htypes (hclean.of_extends ((hf (m w).1).extends_run (m w).2))

lemma clears_skip (hm : Plain true m) (hf : ∀ a, Clears T (f a) φ) : Clears T (m >>= f) φ :=
  fun w htypes hclean => hf (m w).1 (m w).2 ((hm.extends_run w).types.trans htypes) hclean

lemma Clears.and {ψ : Prop} (h : Clears T m φ) (h' : Clears T m ψ) : Clears T m (φ ∧ ψ) :=
  fun w htypes hclean => ⟨h w htypes hclean, h' w htypes hclean⟩

lemma Clears.mono {ψ : Prop} (h : Clears T m φ) (hφ : φ → ψ) : Clears T m ψ :=
  fun w htypes hclean => hφ (h w htypes hclean)

/-- What a step establishes if it ends without an error may be assumed of what it records. -/
lemma Clears.records (hclears : Clears T m φ) (hplain : Plain true m) (h : φ → Records T m) :
    Records T m :=
  fun w htypes => ⟨hplain.extends_run w, fun hclean hrecorded =>
    (h (hclears w htypes hclean) w htypes).2 hclean hrecorded⟩

lemma records_pure (a : α) : Records T (pure a) := fun w _ => ⟨.refl w, fun _ h => h⟩

/-- The answer of the first step may be assumed to be as that step gives it. -/
lemma records_bind_answer {P : α → Prop} (hm : Records T m)
    (hanswer : ∀ w, w.types = T → P (m w).1) (hf : ∀ a, P a → Records T (f a)) :
    Records T (m >>= f) := by
  intro w htypes
  obtain ⟨hext, hkeeps⟩ := hm w htypes
  obtain ⟨hext', hkeeps'⟩ := hf (m w).1 (hanswer w htypes) (m w).2 (hext.types.trans htypes)
  rw [bind_run]
  exact ⟨hext.trans hext', fun hclean hrecorded =>
    hkeeps' hclean (hkeeps (hclean.of_extends hext') hrecorded)⟩

lemma records_bind (hm : Records T m) (hf : ∀ a, Records T (f a)) : Records T (m >>= f) :=
  records_bind_answer hm (P := fun _ => True) (fun _ _ => trivial) fun a _ => hf a

lemma records_silent (hplain : Plain true m) (hsilent : Silent m) : Records T m :=
  fun w _ => ⟨hplain.extends_run w, fun _ h => (hsilent w).1.symm ▸ h⟩

lemma records_tempFor (hhint : ∀ ty ∈ hint, Valid T ty) : Records T (tempFor node hint) := by
  intro w _
  have hplain : Plain true (tempFor node hint) := .tempFor node hint
  exact ⟨hplain.extends_run w, fun _ h => h.tempFor hhint⟩

lemma records_aux (hhint : ∀ ty ∈ hint, Valid T ty) : Records T (aux node hint) := by
  intro w _
  have hplain : Plain true (aux node hint) := .aux node hint
  exact ⟨hplain.extends_run w, fun _ h => h.newTemp hhint⟩

lemma records_emits {m : Analyzer Unit} {cs : List Constraint} (hplain : Plain true m)
    (h : Emits m cs) (hcs : ∀ c ∈ cs, Fine T c) : Records T m := by
  refine fun w _ => ⟨hplain.extends_run w, fun _ hrecorded => ?_⟩
  obtain ⟨hconstraints, htemps, -⟩ := foldl_constrain cs w.inference
  rw [h w]
  refine ⟨?_, fun target term ty hc hty => ?_⟩
  · rw [htemps]
    exact hrecorded.hints
  · rw [hconstraints] at hc
    rcases List.mem_append.mp hc with hold | hnew
    · exact hrecorded.specs target term ty hold hty
    · exact hcs _ hnew target term ty rfl hty

lemma records_spec {term : Term} (h : Fine T (.spec target term)) : Records T (spec target term) :=
  records_emits (plain_spec _ _) (emits_spec target term) (List.forall_mem_singleton.mpr h)

lemma records_type (ty : Ty) (h : Valid T ty) : Records T (spec target ty.toTerm) :=
  records_spec (fine_type ty h)

lemma records_same (left right : Tag) : Records T (same left right) :=
  records_emits (plain_same _ _) (emits_same left right) (List.forall_mem_singleton.mpr nofun)

lemma records_oneOf (target : Tag) (kinds : List TyKind) : Records T (oneOf target kinds) :=
  records_emits (plain_oneOf _ _) (emits_oneOf target kinds) (List.forall_mem_singleton.mpr nofun)

lemma fine_binary (op : BinaryOp) (result left right : Tag) :
    ∀ c ∈ binaryDemands op result left right, Fine T c := by
  have hint : ∀ t, Fine T (.spec t .int) := fun _ => fine_type .int rfl
  have hfloat : ∀ t, Fine T (.spec t .float) := fun _ => fine_type .float rfl
  have hbool : ∀ t, Fine T (.spec t .bool) := fun _ => fine_type .bool rfl
  have hunit : ∀ t, Fine T (.spec t .unit) := fun _ => fine_type .unit rfl
  have hsame : Fine T (.same left right) := nofun
  cases op with
  | seq => exact List.forall_mem_singleton.mpr nofun
  | assign =>
    exact List.forall_mem_cons.mpr ⟨fine_open rfl, List.forall_mem_singleton.mpr (hunit _)⟩
  | eq | neq | natEq | natNeq | lt | le | gt | ge =>
    exact List.forall_mem_cons.mpr ⟨nofun, List.forall_mem_cons.mpr
      ⟨hsame, List.forall_mem_singleton.mpr (hbool _)⟩⟩
  | and | or => exact List.forall_mem_map.mpr fun t _ => hbool t
  | add | sub | mul | div | mod => exact List.forall_mem_map.mpr fun t _ => hint t
  | fAdd | fSub | fMul | fDiv | pow => exact List.forall_mem_map.mpr fun t _ => hfloat t

lemma fine_unary (op : UnaryOp) (result operand : Tag) :
    ∀ c ∈ unaryDemands op result operand, Fine T c := by
  cases op with
  | plus | minus =>
    exact List.forall_mem_cons.mpr ⟨fine_type .int rfl, List.forall_mem_singleton.mpr nofun⟩
  | fPlus | fMinus =>
    exact List.forall_mem_cons.mpr
      ⟨fine_type .float rfl, List.forall_mem_singleton.mpr nofun⟩
  | not => exact List.forall_mem_map.mpr fun t _ => fine_type .bool rfl
  | deref =>
    exact List.forall_mem_cons.mpr ⟨nofun, List.forall_mem_singleton.mpr (fine_open rfl)⟩

lemma records_forM (l : List α) (h : ∀ a ∈ l, Records T (step a)) : Records T (l.forM step) := by
  induction l with
  | nil => exact records_pure ()
  | cons a l ih =>
    obtain ⟨hfirst, hrest⟩ := List.forall_mem_cons.mp h
    exact records_bind hfirst fun _ => ih hrest

lemma records_forSome {value : Option α} (h : ∀ a ∈ value, Records T (step a)) :
    Records T (forSome value step) := by
  cases value with
  | none => exact records_pure ()
  | some a => exact h a rfl

/-- Every name of the scope has a placeholder of its own. -/
def Bound (scope : Env) : Prop := ∀ symbol ∈ scope, symbol.temp.isSome = true

/-- The types of the names that have no placeholder are well formed. -/
def EnvValid (T : TypeTable) (env : Env) : Prop :=
  ∀ symbol ∈ env, symbol.temp = none → ∀ ty ∈ symbol.ty, Valid T ty

lemma EnvValid.append (h : EnvValid T env) (hscope : Bound scope) : EnvValid T (scope ++ env) := by
  intro symbol hsymbol hnone
  rcases List.mem_append.mp hsymbol with hown | houter
  · have hsome := hscope symbol hown
    rw [hnone] at hsome
    cases hsome
  · exact h symbol houter hnone

lemma envValid_library : EnvValid T Library.symbols := by
  intro symbol hsymbol _
  obtain ⟨⟨name, ty⟩, hentry, rfl⟩ := List.mem_map.mp hsymbol
  have hall : ∀ entry ∈ Library.signatures, Valid T entry.2 := by
    simp [Library.signatures, Valid, TypeTable.validate, TypeTable.check, Ty.isArray]
  intro ty' hty
  cases hty
  exact hall _ hentry

lemma bound_nil : Bound [] := nofun

lemma bound_declare {symbol : Symbol} (h : Bound scope) (hsymbol : symbol.temp.isSome = true)
    (w : Walk) : Bound (declare scope symbol w).1 := by
  unfold declare
  cases Env.lookup? scope symbol.name with
  | some previous => exact h
  | none => exact List.forall_mem_append.mpr ⟨h, List.forall_mem_singleton.mpr hsymbol⟩

lemma bound_declareDefs (ds : List Def) (h : Bound scope) (w : Walk) :
    Bound (declareDefs ds scope w).1 := by
  induction ds generalizing scope w with
  | nil => exact h
  | cons d ds ih => exact ih (bound_declare h rfl _) _

lemma bound_declareParams (function : String) (ps : List Param) (h : Bound scope) (w : Walk) :
    Bound (declareParams function ps scope w).1.2 := by
  induction ps generalizing scope w with
  | nil => exact h
  | cons p ps ih => exact ih (bound_declare h rfl _) _

lemma bound_patterns {ps : List Pattern}
    (h : ∀ p ∈ ps, ∀ scope, Bound scope → ∀ w, Bound (elaboratePattern p scope w).1.2)
    (hscope : Bound scope) (w : Walk) : Bound (elaboratePatterns ps scope w).1.2 := by
  induction ps generalizing scope w with
  | nil => exact hscope
  | cons p ps ih =>
    obtain ⟨hfirst, hrest⟩ := List.forall_mem_cons.mp h
    exact ih hrest (hfirst scope hscope w) _

lemma pattern_bound : PatternCases fun p => ∀ scope, Bound scope → ∀ w,
    Bound (elaboratePattern p scope w).1.2 where
  const _ _ _ h _ := h
  var _ _ _ h _ := bound_declare h rfl _
  constr site _ _ hargs _ h w := bound_patterns hargs h (tempFor site.id none w).2

lemma bound_group (g : LetGroup) (env : Env) (w : Walk) : Bound (elaborateGroup g env w).1 := by
  obtain ⟨site, isRec, ds⟩ := g
  cases isRec with
  | true => exact bound_declareDefs ds bound_nil w
  | false => exact bound_declareDefs ds bound_nil _

lemma records_constructFound (hT : Sourced T) (target : Tag) (args : List Tag)
    {info : ConstructorInfo} (hinfo : info ∈ T.constructors) :
    Records T (constructFound target args info) := by
  have howner : Records T (spec target (.user info.owner)) :=
    records_type (.user info.owner) (hT.owner info hinfo)
  refine records_bind howner fun _ => records_forM _ fun (tag, ty) hpair => ?_
  exact records_type ty (hT.args info hinfo ty (List.of_mem_zip hpair).2)

lemma records_construct (hT : Sourced T) (target : Tag) (name : String) (args : List Tag)
    (span : Span) : Records T (construct target name args span) := by
  have hsilent : Silent (constructorOf name span) := by
    intro w
    rw [constructorOf_run]
    cases w.types.constructorWithin? name w.passed <;> exact ⟨rfl, rfl, rfl⟩
  have hfound : ∀ w, w.types = T → ∀ info ∈ (constructorOf name span w).1,
      info ∈ T.constructors := by
    intro w htypes info hinfo
    rw [constructorOf_run] at hinfo
    cases hrun : w.types.constructorWithin? name w.passed with
    | none =>
      rw [hrun] at hinfo
      cases hinfo
    | some info' =>
      rw [hrun] at hinfo
      cases hinfo
      have hknown := (Option.filter_eq_some_iff.mp hrun).1
      rw [htypes] at hknown
      exact List.mem_of_find?_eq_some hknown
  rw [construct_eq]
  refine records_bind_answer (P := fun found => ∀ info ∈ found, info ∈ T.constructors)
    (records_silent (.constructorOf name span) hsilent) hfound fun found hfound =>
      records_forSome fun info hinfo => records_bind ?_ fun _ =>
        records_constructFound hT target args (hfound info hinfo)
  exact records_silent (plain_ite (plain_problem _ nofun) (.pure ()))
    (silent_ite (silent_report _) (silent_pure ()))

lemma records_resolveUse (henv : EnvValid T env) (name : String) (site : Site) :
    Records T (resolveUse env name site) := by
  unfold resolveUse
  cases hfound : Env.lookup? env name with
  | none =>
    exact records_bind (records_silent (plain_problem _ fun _ => rfl) (silent_report _)) fun _ =>
      records_pure _
  | some symbol =>
    have hmem : symbol ∈ env := List.mem_of_find?_eq_some hfound
    have hvalid := henv symbol hmem
    obtain ⟨name, kind, ty, temp, span⟩ := symbol
    cases temp with
    | some tag => exact records_pure _
    | none =>
      cases ty with
      | none => exact records_pure _
      | some ty => exact records_bind (records_aux (hvalid rfl)) fun _ => records_pure _

lemma records_constrainUse (henv : EnvValid T env) (name : String) (site : Site)
    {step : Tag → Analyzer Unit} (h : ∀ tag, Records T (step tag)) :
    Records T (constrainUse env name site step) :=
  records_bind (records_resolveUse henv name site) fun _ => records_forSome fun tag _ => h tag

lemma records_declare (scope : Env) (symbol : Symbol) : Records T (declare scope symbol) := by
  unfold declare
  cases Env.lookup? scope symbol.name with
  | none => exact records_pure _
  | some previous =>
    exact records_bind (records_silent (.report _ nofun fun _ => rfl) (silent_report _)) fun _ =>
      records_pure _

lemma records_declareDefs {ds : List Def} (h : ∀ d ∈ ds, ∀ ty ∈ d.declaredType?, Valid T ty)
    (scope : Env) : Records T (declareDefs ds scope) := by
  induction ds generalizing scope with
  | nil => exact records_pure _
  | cons d ds ih =>
    obtain ⟨hfirst, hrest⟩ := List.forall_mem_cons.mp h
    exact records_bind (records_tempFor hfirst) fun _ => records_bind (records_declare _ _) fun _ =>
      ih hrest _

lemma records_declareParams (function : String) {ps : List Param}
    (h : ∀ p ∈ ps, ∀ ty ∈ p.ty, Valid T ty) (scope : Env) :
    Records T (declareParams function ps scope) := by
  induction ps generalizing scope with
  | nil => exact records_pure _
  | cons p ps ih =>
    obtain ⟨hfirst, hrest⟩ := List.forall_mem_cons.mp h
    have hcheck : Records T (checkParam function p) :=
      records_silent (plain_checkParam _ _) (silent_ite (silent_report _) (silent_pure ()))
    exact records_bind (records_tempFor hfirst) fun _ => records_bind hcheck fun _ =>
      records_bind (records_declare _ _) fun _ => records_bind (ih hrest _) fun _ => records_pure _

lemma clears_problem (e : SemanticError) : Clears T (problem e) False := by
  intro w _ hclean
  have hmem : Report.semantic e ∈ (problem e w).2.reports.toList := by
    change Report.semantic e ∈ (w.reports.push (.semantic e)).toList
    simp
  exact hclean _ hmem rfl

lemma clears_validate (ty : Ty) (name : String) (span : Span) :
    Clears T (validate ty name span) (Valid T ty) := by
  intro w htypes hclean
  cases hchecked : w.types.validateWithin ty w.passed with
  | ok =>
    rw [htypes] at hchecked
    exact valid_of_within hchecked
  | error cause =>
    rw [validate_run, hchecked] at hclean
    exact absurd rfl (hclean (.semantic (.invalidType cause name span)) (by simp))

lemma clears_validateOption (ty : Option Ty) (name : String) (span : Span) :
    Clears T (validateOption ty name span) (∀ τ ∈ ty, Valid T τ) := by
  cases ty with
  | none => exact fun _ _ _ => nofun
  | some ty =>
    intro w htypes hclean τ hτ
    cases hτ
    exact clears_validate ty name span w htypes hclean

lemma clears_validateResult (result : Option Ty) (name : String) (span : Span) :
    Clears T (validateResult result name span)
      (∀ τ ∈ result, Valid T τ ∧ τ.isArray = false) := by
  cases result with
  | none => exact fun _ _ _ => nofun
  | some ty =>
    intro w htypes hclean τ hτ
    cases hτ
    unfold validateResult at hclean
    dsimp only at hclean
    split at hclean
    next => exact (clears_problem _ w htypes hclean).elim
    next hshape =>
      exact ⟨clears_validate ty name span w htypes hclean, Bool.eq_false_iff.mpr hshape⟩

lemma clears_validateMutable (site : Site) (name : String) (ty : Option Ty) :
    Clears T (validateMutable site name ty) (∀ τ ∈ ty, Valid T τ) := by
  cases ty with
  | none => exact fun _ _ _ => nofun
  | some ty => exact clears_validateOption (some ty) name site.span

lemma clears_forM {P : α → Prop} (hplain : ∀ a, Plain true (step a))
    (h : ∀ a, Clears T (step a) (P a)) (l : List α) : Clears T (l.forM step) (∀ a ∈ l, P a) := by
  induction l with
  | nil => exact fun _ _ _ => nofun
  | cons a l ih =>
    have hfirst : Clears T ((a :: l).forM step) (P a) :=
      (h a).bind fun _ => plain_forM hplain l
    have hrest : Clears T ((a :: l).forM step) (∀ b ∈ l, P b) :=
      clears_skip (hplain a) fun _ => ih
    exact (hfirst.and hrest).mono List.forall_mem_cons.mpr

/-- The types that a function definition is given. -/
def FunctionValid (T : TypeTable) (params : List Param) (result : Option Ty) : Prop :=
  (∀ p ∈ params, ∀ ty ∈ p.ty, Valid T ty) ∧ ∀ ty ∈ result, Valid T ty ∧ ty.isArray = false

lemma clears_function (site : Site) (name : String) (params : List Param) (result : Option Ty)
    (body : Expr) (env : Env) :
    Clears T (elaborateDef (.function site name params result body) env)
      (FunctionValid T params result) := by
  have hbody : ∀ f : Tag, Plain true (do
      let ps ← declareParams name params []
      let b ← elaborateExpr body (ps.2 ++ env)
      forSome result fun ty => spec b ty.toTerm
      spec f (Term.curried (ps.1.map .temp) (.temp b))) := fun f =>
    .bind (plain_declareParams _ _ _) fun _ => .bind (tree_plain.expr body _) fun _ =>
      .bind (plain_forSome fun _ => plain_spec _ _) fun _ => plain_spec _ _
  have hparams : Clears T
      (params.forM fun param => validateOption param.ty param.name param.site.span)
      (∀ p ∈ params, ∀ ty ∈ p.ty, Valid T ty) :=
    clears_forM (fun _ => plain_validateOption _ _ _) (fun _ => clears_validateOption _ _ _) params
  refine Clears.and ?_ ?_
  · exact hparams.bind fun _ => .bind (plain_validateResult _ _ _) fun _ =>
      .bind (.tempFor _ _) hbody
  · refine clears_skip (plain_forM (fun _ => plain_validateOption _ _ _) params) fun _ => ?_
    exact (clears_validateResult result name site.span).bind fun _ => .bind (.tempFor _ _) hbody

lemma exists_of_mapM_ty {params : List Param} {tys : List Ty} (h : params.mapM Param.ty = some tys)
    {ty : Ty} (hty : ty ∈ tys) : ∃ p ∈ params, p.ty = some ty := by
  induction params generalizing tys with
  | nil =>
    cases h
    cases hty
  | cons p params ih =>
    rw [List.mapM_cons] at h
    obtain ⟨first, hfirst, h⟩ := Option.bind_eq_some_iff.mp h
    obtain ⟨rest, hrest, hcons⟩ := Option.bind_eq_some_iff.mp h
    cases hcons
    rcases List.mem_cons.mp hty with rfl | hty
    · exact ⟨p, List.mem_cons_self, hfirst⟩
    · obtain ⟨q, hq, hqty⟩ := ih hrest hty
      exact ⟨q, List.mem_cons_of_mem _ hq, hqty⟩

lemma FunctionValid.declared {params : List Param} {result : Option Ty}
    (h : FunctionValid T params result) : ∀ ty ∈ Def.functionType? params result, Valid T ty := by
  intro ty hty
  obtain ⟨tys, r, htys, rfl, rfl⟩ := functionType?_eq_some hty
  refine valid_curried (fun ty hty => ?_) (h.2 r rfl).1 (h.2 r rfl).2
  obtain ⟨p, hp, hpty⟩ := exists_of_mapM_ty htys hty
  exact h.1 p hp ty hpty

/-- A definition that is walked through without an error has a well-formed type, if it is given
one. -/
lemma clears_def (d : Def) (env : Env) :
    Clears T (elaborateDef d env) (∀ ty ∈ d.declaredType?, Valid T ty) := by
  cases d with
  | function site name params result body =>
    exact (clears_function site name params result body env).mono FunctionValid.declared
  | constant site name ty body =>
    exact (clears_validateOption ty name site.span).bind fun _ =>
      .bind (.tempFor _ _) fun _ => .bind (tree_plain.expr body env) fun _ => plain_same _ _
  | mutableVar site name ty =>
    exact clears_skip (.tempFor _ _) fun _ => clears_validateMutable site name _
  | mutableArray site name dims ty =>
    exact clears_skip (plain_sizes (fun e _ => tree_plain.expr e) env) fun _ =>
      clears_skip (.tempFor _ _) fun _ => clears_validateMutable site name _

lemma clears_defs (ds : List Def) (env : Env) :
    Clears T (elaborateDefs ds env) (∀ d ∈ ds, ∀ ty ∈ d.declaredType?, Valid T ty) := by
  induction ds with
  | nil => exact fun _ _ _ => nofun
  | cons d ds ih =>
    have hfirst : Clears T (elaborateDefs (d :: ds) env) (∀ ty ∈ d.declaredType?, Valid T ty) :=
      (clears_def d env).bind fun _ => plain_defs (fun d _ => tree_plain.definition d) env
    have hrest : Clears T (elaborateDefs (d :: ds) env)
        (∀ d ∈ ds, ∀ ty ∈ d.declaredType?, Valid T ty) :=
      clears_skip (tree_plain.definition d env) fun _ => ih
    exact (hfirst.and hrest).mono fun h => List.forall_mem_cons.mpr ⟨h.1, h.2⟩

lemma records_patterns {ps : List Pattern}
    (h : ∀ p ∈ ps, ∀ scope, Records T (elaboratePattern p scope)) (scope : Env) :
    Records T (elaboratePatterns ps scope) := by
  induction ps generalizing scope with
  | nil => exact records_pure _
  | cons p ps ih =>
    obtain ⟨hfirst, hrest⟩ := List.forall_mem_cons.mp h
    exact records_bind (hfirst scope) fun _ => records_bind (ih hrest _) fun _ => records_pure _

lemma valid_constant (value : Const) : Valid T value.ty := by
  cases value <;> rfl

lemma records_fresh : Records T (tempFor node none) := records_tempFor nofun

lemma pattern_records (hT : Sourced T) :
    PatternCases fun p => ∀ scope, Records T (elaboratePattern p scope) where
  const _ value _ :=
    records_bind records_fresh fun _ =>
      records_bind (records_type value.ty (valid_constant value)) fun _ => records_pure _
  var _ _ _ :=
    records_bind records_fresh fun _ => records_bind (records_declare _ _) fun _ => records_pure _
  constr _ _ _ hargs scope :=
    records_bind records_fresh fun _ => records_bind (records_patterns hargs scope) fun _ =>
      records_bind (records_construct hT _ _ _ _) fun _ => records_pure _

section

variable {env : Env} (henv : EnvValid T env)

include henv

lemma records_exprs {es : List Expr}
    (h : ∀ e ∈ es, ∀ env, EnvValid T env → Records T (elaborateExpr e env)) :
    Records T (elaborateExprs es env) := by
  induction es with
  | nil => exact records_pure _
  | cons e es ih =>
    obtain ⟨hfirst, hrest⟩ := List.forall_mem_cons.mp h
    exact records_bind (hfirst env henv) fun _ => records_bind (ih hrest) fun _ => records_pure _

lemma records_sizes {es : List Expr}
    (h : ∀ e ∈ es, ∀ env, EnvValid T env → Records T (elaborateExpr e env)) :
    Records T (elaborateSizes es env) := by
  induction es with
  | nil => exact records_pure _
  | cons e es ih =>
    obtain ⟨hfirst, hrest⟩ := List.forall_mem_cons.mp h
    exact records_bind (hfirst env henv) fun _ =>
      records_bind (records_type .int rfl) fun _ => ih hrest

lemma records_clauses (hT : Sourced T) {cs : List Clause}
    (h : ∀ c ∈ cs, ∀ env, EnvValid T env → Records T (elaborateExpr c.body env))
    (result scrutinee : Tag) : Records T (elaborateClauses cs result scrutinee env) := by
  induction cs with
  | nil => exact records_pure _
  | cons c cs ih =>
    obtain ⟨site, pattern, body⟩ := c
    obtain ⟨hfirst, hrest⟩ := List.forall_mem_cons.mp h
    refine records_bind_answer (P := fun p => Bound p.2) ((pattern_records hT).pattern pattern [])
      (fun w _ => pattern_bound.pattern pattern [] bound_nil w) fun p hp => ?_
    refine records_bind (records_same _ _) fun _ => ?_
    exact records_bind (hfirst _ (henv.append hp)) fun _ => records_bind (records_same _ _) fun _ =>
      ih hrest

lemma records_defs {ds : List Def}
    (h : ∀ d ∈ ds, ∀ env, EnvValid T env → Records T (elaborateDef d env)) :
    Records T (elaborateDefs ds env) := by
  induction ds with
  | nil => exact records_pure _
  | cons d ds ih =>
    obtain ⟨hfirst, hrest⟩ := List.forall_mem_cons.mp h
    exact records_bind (hfirst env henv) fun _ => ih hrest

/-- In a recursive group placeholders are made with types that are only checked afterwards. -/
lemma records_group {g : LetGroup}
    (h : ∀ d ∈ g.defs, ∀ env, EnvValid T env → Records T (elaborateDef d env)) :
    Records T (elaborateGroup g env) := by
  have hplain := plain_group (tree_plain.group g) env
  obtain ⟨site, isRec, ds⟩ := g
  cases isRec with
  | true =>
    have hclears : Clears T (elaborateGroup (.mk site true ds) env)
        (∀ d ∈ ds, ∀ ty ∈ d.declaredType?, Valid T ty) :=
      clears_skip (plain_declareDefs ds []) fun _ => (clears_defs ds _).bind fun _ => .pure _
    refine hclears.records hplain fun hdeclared => ?_
    refine records_bind_answer (records_declareDefs hdeclared [])
      (fun w _ => bound_declareDefs ds bound_nil w) fun scope hscope => ?_
    exact records_bind (records_defs (henv.append hscope) h) fun _ => records_pure _
  | false =>
    have hclears : Clears T (elaborateGroup (.mk site false ds) env)
        (∀ d ∈ ds, ∀ ty ∈ d.declaredType?, Valid T ty) :=
      (clears_defs ds env).bind fun _ => plain_declareDefs ds []
    refine hclears.records hplain fun hdeclared => ?_
    exact records_bind (records_defs henv h) fun _ => records_declareDefs hdeclared []

end

lemma records_function {body : Expr}
    (hbody : ∀ env, EnvValid T env → Records T (elaborateExpr body env)) (site : Site)
    (name : String) (params : List Param) (result : Option Ty) (henv : EnvValid T env) :
    Records T (elaborateDef (.function site name params result body) env) := by
  refine (clears_function site name params result body env).records
    (tree_plain.definition (.function site name params result body) env) fun hvalid => ?_
  have hsilent : Silent (params.forM fun param =>
      validateOption param.ty param.name param.site.span) :=
    silent_forM (fun _ => silent_validateOption _ _ _) params
  refine records_bind (records_silent (plain_forM (fun _ => plain_validateOption _ _ _) params)
    hsilent) fun _ => ?_
  refine records_bind (records_silent (plain_validateResult _ _ _) (silent_validateResult _ _ _))
    fun _ => records_bind (records_tempFor hvalid.declared) fun f => ?_
  refine records_bind_answer (P := fun ps => Bound ps.2) (records_declareParams name hvalid.1 [])
    (fun w _ => bound_declareParams name params bound_nil w) fun ps hps => ?_
  refine records_bind (hbody _ (henv.append hps)) fun b => ?_
  refine records_bind (records_forSome fun ty hty => ?_) fun _ => ?_
  · exact records_type ty (hvalid.2 ty hty).1
  · exact records_spec (fine_open (toTy?_curried _ _))

lemma records_mutable (site : Site) (name : String) (ty : Option Ty) :
    Records T (tempFor site.id ty >>= fun _ => validateMutable site name ty) := by
  have hplain : Plain true (tempFor site.id ty >>= fun _ => validateMutable site name ty) :=
    .bind (.tempFor _ _) fun _ => plain_validateMutable _ _ _
  have hclears : Clears T (tempFor site.id ty >>= fun _ => validateMutable site name ty)
      (∀ τ ∈ ty, Valid T τ) :=
    clears_skip (.tempFor _ _) fun _ => clears_validateMutable site name ty
  refine hclears.records hplain fun hvalid => records_bind (records_tempFor hvalid) fun _ => ?_
  cases ty with
  | none =>
    intro w _
    exact ⟨.infer ⟨List.prefix_refl _, List.prefix_refl _⟩, fun _ h => ⟨h.hints, h.specs⟩⟩
  | some ty => exact records_silent (.validate _ _ _) (silent_validate _ _ _)

/-- Every expression and every definition records well-formed types only. -/
lemma tree_records (hT : Sourced T) :
    TreeCases (fun e => ∀ env, EnvValid T env → Records T (elaborateExpr e env))
      (fun d => ∀ env, EnvValid T env → Records T (elaborateDef d env)) where
  binary _ op _ _ hl hr env henv :=
    records_bind records_fresh fun _ => records_bind (hl env henv) fun _ =>
      records_bind (hr env henv) fun _ =>
        records_bind (records_emits (plain_relate op _ _ _) (emits_relate op _ _ _)
          (fine_binary op _ _ _)) fun _ => records_pure _
  unary _ op _ h env henv :=
    records_bind records_fresh fun _ => records_bind (h env henv) fun _ =>
      records_bind (records_emits (plain_relateUnary op _ _) (emits_relateUnary op _ _)
        (fine_unary op _ _)) fun _ => records_pure _
  construct _ _ _ h env henv :=
    records_bind records_fresh fun _ => records_bind (records_exprs henv h) fun _ =>
      records_bind (records_construct hT _ _ _ _) fun _ => records_pure _
  element _ _ _ h env henv :=
    records_bind records_fresh fun _ => records_bind (records_sizes henv h) fun _ =>
      records_bind (records_aux nofun) fun _ =>
        records_bind (records_constrainUse henv _ _ fun _ => records_spec (fine_open rfl)) fun _ =>
          records_bind (records_spec (fine_open rfl)) fun _ => records_pure _
  const _ value _ _ :=
    records_bind records_fresh fun _ =>
      records_bind (records_type value.ty (valid_constant value)) fun _ => records_pure _
  constr _ _ _ _ :=
    records_bind records_fresh fun _ => records_bind (records_construct hT _ _ _ _) fun _ =>
      records_pure _
  var _ _ _ henv :=
    records_bind records_fresh fun _ =>
      records_bind (records_constrainUse henv _ _ fun _ => records_same _ _) fun _ =>
        records_pure _
  delete _ _ h env henv :=
    records_bind records_fresh fun _ => records_bind (h env henv) fun _ =>
      records_bind (records_aux nofun) fun _ => records_bind (records_spec (fine_open rfl)) fun _ =>
        records_bind (records_type .unit rfl) fun _ => records_pure _
  dim _ _ _ _ henv :=
    records_bind records_fresh fun _ =>
      records_bind (records_silent (plain_checkDimension _ _ _)
        (silent_ite (silent_report _) (silent_pure ()))) fun _ =>
        records_bind (records_constrainUse henv _ _ fun _ => records_oneOf _ _) fun _ =>
          records_bind (records_type .int rfl) fun _ => records_pure _
  forLoop site counter _ _ _ _ hf hl hb env henv := by
    have hcounter : ∀ c : Tag, Bound [⟨counter, .var, some .int, some c, site.span⟩] :=
      fun _ => List.forall_mem_singleton.mpr rfl
    have hint : ∀ ty ∈ some Ty.int, Valid T ty := by
      rintro ty ⟨⟩
      rfl
    refine records_bind records_fresh fun _ => records_bind (hf env henv) fun _ => ?_
    refine records_bind (hl env henv) fun _ => records_bind (records_type .int rfl) fun _ => ?_
    refine records_bind (records_type .int rfl) fun _ => records_bind (records_aux hint) fun c => ?_
    refine records_bind (hb _ (henv.append (hcounter c))) fun _ => ?_
    exact records_bind (records_type .unit rfl) fun _ =>
      records_bind (records_type .unit rfl) fun _ => records_pure _
  call _ _ _ h env henv :=
    records_bind records_fresh fun _ => records_bind (records_exprs henv h) fun _ =>
      records_bind (records_constrainUse henv _ _ fun _ =>
        records_spec (fine_open (toTy?_curried _ _))) fun _ => records_pure _
  letIn _ g _ hg hb env henv :=
    records_bind records_fresh fun _ =>
      records_bind_answer (records_group henv hg) (fun w _ => bound_group g env w)
        fun _ hscope => records_bind (hb _ (henv.append hscope)) fun _ =>
          records_bind (records_same _ _) fun _ => records_pure _
  ifThen _ _ _ hc hp env henv :=
    records_bind records_fresh fun _ => records_bind (hc env henv) fun _ =>
      records_bind (records_type .bool rfl) fun _ => records_bind (hp env henv) fun _ =>
        records_bind (records_type .unit rfl) fun _ =>
          records_bind (records_type .unit rfl) fun _ => records_pure _
  ifElse _ _ _ _ hc hp hn env henv :=
    records_bind records_fresh fun _ => records_bind (hc env henv) fun _ =>
      records_bind (records_type .bool rfl) fun _ => records_bind (hp env henv) fun _ =>
        records_bind (hn env henv) fun _ => records_bind (records_same _ _) fun _ =>
          records_bind (records_same _ _) fun _ => records_pure _
  matchWith _ _ _ hs hc env henv :=
    records_bind records_fresh fun _ => records_bind (hs env henv) fun _ =>
      records_bind (records_clauses henv hT hc _ _) fun _ => records_pure _
  new site ty env henv := by
    have hclears : Clears T (elaborateExpr (.new site ty) env) (Valid T (.ref ty)) :=
      clears_skip (.tempFor site.id none) fun _ =>
        (clears_validate (.ref ty) "new" site.span).bind fun _ =>
          .bind (plain_spec _ _) fun _ => .pure _
    refine hclears.records (tree_plain.new site ty env) fun hvalid => ?_
    exact records_bind records_fresh fun _ =>
      records_bind (records_silent (.validate _ _ _) (silent_validate _ _ _)) fun _ =>
        records_bind (records_type (.ref ty) hvalid) fun _ => records_pure _
  whileLoop _ _ _ hc hb env henv :=
    records_bind records_fresh fun _ => records_bind (hc env henv) fun _ =>
      records_bind (hb env henv) fun _ => records_bind (records_type .bool rfl) fun _ =>
        records_bind (records_type .unit rfl) fun _ =>
          records_bind (records_type .unit rfl) fun _ => records_pure _
  function site name params result _ hb _ henv :=
    records_function hb site name params result henv
  constant site name ty body hb env henv := by
    refine (clears_def (.constant site name ty body) env).records
      (tree_plain.definition (.constant site name ty body) env) fun hvalid => ?_
    exact records_bind (records_silent (plain_validateOption _ _ _) (silent_validateOption _ _ _))
      fun _ => records_bind (records_tempFor hvalid) fun _ => records_bind (hb env henv) fun _ =>
        records_same _ _
  mutableVar site name _ _ _ := records_mutable site name _
  mutableArray site name _ _ hd _ henv :=
    records_bind (records_sizes henv hd) fun _ => records_mutable site name _

/-- With a table in which all type groups are entered, definitions that are walked through without
an error record well-formed types only. -/
lemma recorded_definitions (hT : Sourced T) (ds : List Definition)
    (hentered : ∀ id ∈ groupIds ds, id ∈ T.entered) (henv : EnvValid T env) {w : Walk}
    (htypes : w.types = T) :
    w.reports.toList <+: (elaborateDefinitions ds env w).2.reports.toList ∧
      (Clean (elaborateDefinitions ds env w).2 → Recorded T w.inference →
        Recorded T (elaborateDefinitions ds env w).2.inference) := by
  induction ds generalizing env w with
  | nil => exact ⟨List.prefix_refl _, fun _ h => h⟩
  | cons d ds ih =>
    cases d with
    | lets group =>
      have hrun : elaborateDefinitions (.lets group :: ds) env w =
          elaborateDefinitions ds ((elaborateGroup group env w).1 ++ env)
            (elaborateGroup group env w).2 := rfl
      obtain ⟨hext, hkeeps⟩ := records_group henv ((tree_records hT).group group) w htypes
      obtain ⟨hgrow, hkeeps'⟩ := ih hentered (henv.append (bound_group group env w))
        (hext.types.trans htypes)
      rw [hrun]
      refine ⟨hext.reports.trans hgrow, fun hclean hrecorded => hkeeps' hclean ?_⟩
      exact hkeeps (fun r hr => hclean r (hgrow.subset hr)) hrecorded
    | types group =>
      have hrun : elaborateDefinitions (.types group :: ds) env w =
          elaborateDefinitions ds env (group.analyze w).2 := rfl
      rw [hrun, typeGroup_run_entered (htypes ▸ hentered _ List.mem_cons_self)]
      exact ih (fun id hid => hentered id (List.mem_cons_of_mem _ hid)) henv
        (w := { w with passed := group.site.id :: w.passed }) htypes

/-- If nothing is wrong with its type groups, the table of a program is well formed. -/
lemma sourced_parse {program : Program} (h : (parse tokens).program = some program)
    (hclean : (parse tokens).reports = []) : Sourced (parse tokens).types := by
  obtain ⟨htypes, hreports⟩ := parse_entered h
  have herrors : (enterAll TypeTable.initial (typeGroupsOf program.definitions)).2 = [] :=
    List.map_eq_nil_iff.mp (hreports.symm.trans hclean)
  have hinitial : WellFormed TypeTable.initial := fun _ hc => nomatch hc
  rw [htypes]
  exact ⟨fun c hc => valid_owner (tabulates_enterAll tabulates_initial _) hc,
    hinitial.enterAll herrors⟩

/-- Without an error there is a program and nothing is reported while it is read. -/
lemma program_of_clean (hclean : ∀ r ∈ (parse tokens).reports, r.severity ≠ .error) :
    ∃ program, (parse tokens).program = some program ∧ (parse tokens).reports = [] := by
  obtain ⟨attempts, s, hrounds⟩ := exists_rounds tokens.toArray ParserState.initial (Nat.zero_le _)
  have herrors : errorsOf attempts = [] := by
    have hreported : reportedSyntax s = errorsOf attempts :=
      hrounds.reportedSyntax.trans (List.nil_append _)
    rw [hrounds.parse] at hclean
    rw [← hreported]
    refine List.filterMap_eq_nil_iff.mpr fun r hr => ?_
    cases r with
    | badSyntax e => exact absurd rfl (hclean _ hr)
    | _ => rfl
  have hprogram : (parse tokens).program = some ⟨definitionsOf attempts, s.nextId⟩ := by
    rw [hrounds.parse, if_pos herrors]
  refine ⟨_, hprogram, List.eq_nil_iff_forall_not_mem.mpr fun r hr => hclean r hr ?_⟩
  rw [(parse_entered hprogram).2] at hr
  obtain ⟨e, -, rfl⟩ := List.mem_map.mp hr
  rfl

/-- An analysis that reports no error has recorded well-formed types only. -/
lemma recorded_analyze {program : Program} (h : (parse tokens).program = some program)
    (hT : Sourced (parse tokens).types) (firstTag : Tag) (solver : Solver)
    (hclean : ∀ r ∈ (program.analyze (parse tokens).types firstTag solver).2.2,
      r.severity ≠ .error) :
    Recorded (parse tokens).types
      (elaborateProgram program (Walk.initial (parse tokens).types firstTag)).2.inference := by
  have hkeeps := (recorded_definitions hT program.definitions (parse_entered_ids h)
    envValid_library (w := Walk.initial (parse tokens).types firstTag) rfl).2
  refine hkeeps (fun r hr => hclean r ?_) ⟨nofun, nofun⟩
  rw [analyze_eq]
  exact List.mem_append_left _ hr

lemma parse_reports_subset (tokens : List Token) (parseOnly : Bool) :
    (parse tokens).reports ⊆ (Compilation.ofTokens tokens parseOnly).reports := by
  cases hprogram : (parse tokens).program with
  | none =>
    rw [ofTokens_none hprogram]
    exact List.Subset.refl _
  | some program =>
    cases parseOnly with
    | true =>
      rw [ofTokens_read hprogram]
      exact List.Subset.refl _
    | false =>
      rw [ofTokens_full hprogram]
      exact List.subset_append_left _ _

/-- A compilation without errors records only well-formed types: the hints of all placeholders, the
types without placeholders that constraints ask for, and the arguments of all constructors. -/
theorem clean_compile_records_valid (source : String) (options : CompileOptions)
    (c : Compilation) (h : compile source options = .ok c)
    (hclean : ∀ r ∈ c.reports, r.severity ≠ .error) :
    c.analysis.isSome = !options.parseOnly ∧
      (∀ analysis ∈ c.analysis,
        (∀ temp ∈ analysis.temps, ∀ ty ∈ temp.hint, c.types.validate ty = .ok ()) ∧
        ∀ target term ty, .spec target term ∈ analysis.constraints → term.toTy? = some ty →
          c.types.validate ty = .ok ()) ∧
      ∀ info ∈ c.types.constructors, ∀ ty ∈ info.args, c.types.validate ty = .ok () := by
  obtain ⟨tokens, rfl⟩ : ∃ tokens, c = Compilation.ofTokens tokens options.parseOnly := by
    unfold compile at h
    split at h
    next tokens _ => exact ⟨tokens, (Except.ok.inj h).symm⟩
    next => cases h
  obtain ⟨program, hprogram, hnone⟩ := program_of_clean fun r hr =>
    hclean r (parse_reports_subset tokens _ hr)
  have hT := sourced_parse hprogram hnone
  cases hoption : options.parseOnly with
  | true =>
    rw [ofTokens_read hprogram]
    exact ⟨rfl, fun _ h => absurd h (Option.not_mem_none _), hT.args⟩
  | false =>
    rw [hoption, ofTokens_full hprogram] at hclean
    have hrecorded := recorded_analyze hprogram hT Inference.firstTag Solver.unsolved fun r hr =>
      hclean r (List.mem_append_right _ hr)
    rw [ofTokens_full hprogram]
    refine ⟨rfl, fun analysis hanalysis => ?_, hT.args⟩
    cases hanalysis
    rw [analyze_eq]
    exact ⟨fun temp htemp => hrecorded.hints temp (Array.mem_toList_iff.mpr htemp),
      fun target term ty hspec => hrecorded.specs target term ty (Array.mem_toList_iff.mpr hspec)⟩

/-- A recursive type, a recursive function that is given a type before it is checked, and a mutable
variable. -/
def recursiveSource : String :=
  "type t = A of int ref | B of t let rec f (x : t) : int = " ++
    "match x with A y -> !y | B z -> f z end let mutable m : t"

theorem clean_compile_recursiveSource :
    ∃ c, compile recursiveSource .default = .ok c ∧ (∀ r ∈ c.reports, r.severity ≠ .error) ∧
      c.types.constructors.length = 2 ∧ c.analysis.isSome = !CompileOptions.default.parseOnly ∧
      (∀ analysis ∈ c.analysis,
        (∀ temp ∈ analysis.temps, ∀ ty ∈ temp.hint, c.types.validate ty = .ok ()) ∧
        ∀ target term ty, .spec target term ∈ analysis.constraints → term.toTy? = some ty →
          c.types.validate ty = .ok ()) ∧
      ∀ info ∈ c.types.constructors, ∀ ty ∈ info.args, c.types.validate ty = .ok () := by
  have hrun : (compile recursiveSource .default).toOption.map
      (fun c => (c.reports, c.types.constructors.length)) = some ([], 2) := by
    decide +kernel
  obtain ⟨c, hc, hresult⟩ := Option.map_eq_some_iff.mp hrun
  obtain ⟨hreports, hlength⟩ := Prod.mk.inj hresult
  have h : compile recursiveSource .default = .ok c := eq_ok_of_toOption hc
  have hclean : ∀ r ∈ c.reports, r.severity ≠ .error := by
    rw [hreports]
    exact fun _ h => absurd h List.not_mem_nil
  exact ⟨c, h, hclean, hlength, clean_compile_records_valid recursiveSource .default c h hclean⟩

end Llama.Proofs
