import Llama.Proofs.RecordedTypes

/-!
# The annotations of a function

The types that a function definition gives to its parameters and its result are checked one by one,
and an array as the result is refused at once. For a function with parameters this finds something
exactly if the type of the function as a whole, with one arrow for each parameter, is not well
formed.
-/

namespace Llama.Proofs

open Analyzer TypeTable

variable {name : String} {span : Span} {ty : Ty} {params : List Param}

section

variable (site : Site) (name : String) (params : List Param) (result : Option Ty)

/-- The checks of the types that a function definition gives. -/
def checkAnnotations : Analyzer Unit := do
  params.forM fun param => validateOption param.ty param.name param.site.span
  validateResult result name site.span

/-- The walk through a function definition after the checks. -/
def walkFunction (body : Expr) : Analyzer Unit := do
  let f ← tempFor site.id (Def.functionType? params result)
  openScope
  let ps ← params.mapM (Param.define name)
  let b ← body.analyze
  match result with
  | some ty => spec b ty.toTerm
  | none => pure ()
  spec f (Term.curried (ps.map .temp) (.temp b))
  closeScope

lemma analyze_function (body : Expr) :
    (Def.function site name params result body).analyze =
      checkAnnotations site name params result >>= fun _ =>
        walkFunction site name params result body := by
  rw [Def.analyze]
  rfl

end

/-- A walk that has made some more reports. -/
def withReports (w : Walk) (found : List Report) : Walk :=
  { w with reports := w.reports ++ found.toArray }

@[simp] lemma withReports_nil (w : Walk) : withReports w [] = w := by
  simp [withReports]

@[simp] lemma withReports_append (w : Walk) (found found' : List Report) :
    withReports (withReports w found) found' = withReports w (found ++ found') := by
  simp [withReports]

section

variable (T : TypeTable) (passed : List NodeId)

/-- The report on a type that is given to the named thing, if it is not well formed. -/
def typeReport? (name : String) (span : Span) (ty : Ty) : Option Report :=
  match T.validateWithin ty passed with
  | .ok () => none
  | .error cause => some (.semantic (.invalidType cause name span))

/-- The report on the type of a result. -/
def resultReport? (name : String) (span : Span) (ty : Ty) : Option Report :=
  if ty.isArray then some (.semantic (.invalidType .arrayReturn name span))
  else typeReport? T passed name span ty

/-- The reports on the types that a function definition gives. -/
def annotationReports (site : Site) (name : String) (params : List Param) (result : Option Ty) :
    List Report :=
  (params.filterMap fun param => param.ty.bind (typeReport? T passed param.name param.site.span)) ++
    (result.bind (resultReport? T passed name site.span)).toList

end

section

variable {T : TypeTable} {passed : List NodeId}

lemma problem_reports (e : SemanticError) (w : Walk) :
    problem e w = ((), withReports w [.semantic e]) := by
  change ((), { w with reports := w.reports.push (.semantic e) }) = _
  simp [withReports]

lemma validate_reports (ty : Ty) (name : String) (span : Span) (w : Walk) :
    validate ty name span w =
      ((), withReports w (typeReport? w.types w.passed name span ty).toList) := by
  rw [validate_run, typeReport?]
  cases w.types.validateWithin ty w.passed with
  | ok => simp
  | error cause => simp [withReports]

lemma validateOption_reports (ty : Option Ty) (name : String) (span : Span) (w : Walk) :
    validateOption ty name span w =
      ((), withReports w (ty.bind (typeReport? w.types w.passed name span)).toList) := by
  cases ty with
  | none =>
    rw [Option.bind_none, Option.toList_none, withReports_nil]
    rfl
  | some ty => exact validate_reports ty name span w

lemma validateResult_reports (result : Option Ty) (name : String) (span : Span) (w : Walk) :
    validateResult result name span w =
      ((), withReports w (result.bind (resultReport? w.types w.passed name span)).toList) := by
  cases result with
  | none =>
    rw [Option.bind_none, Option.toList_none, withReports_nil]
    rfl
  | some ty =>
    rw [validateResult, Option.bind_some, resultReport?]
    split
    next => exact problem_reports _ w
    next => exact validate_reports ty name span w

lemma checkParams_reports (params : List Param) (w : Walk) :
    (params.forM fun param => validateOption param.ty param.name param.site.span) w =
      ((), withReports w (params.filterMap fun param =>
        param.ty.bind (typeReport? w.types w.passed param.name param.site.span))) := by
  induction params generalizing w with
  | nil =>
    rw [List.filterMap_nil, withReports_nil]
    rfl
  | cons param params ih =>
    have hrun : ((param :: params).forM fun param =>
        validateOption param.ty param.name param.site.span) w =
        (params.forM fun param => validateOption param.ty param.name param.site.span)
          (validateOption param.ty param.name param.site.span w).2 := rfl
    rw [hrun, validateOption_reports, ih, withReports_append, List.filterMap_cons]
    cases param.ty.bind (typeReport? w.types w.passed param.name param.site.span) <;> rfl

lemma checkAnnotations_reports (site : Site) (name : String) (params : List Param)
    (result : Option Ty) (w : Walk) :
    checkAnnotations site name params result w =
      ((), withReports w (annotationReports w.types w.passed site name params result)) := by
  rw [checkAnnotations, bind_run, checkParams_reports, validateResult_reports, withReports_append]
  rfl

lemma typeReport?_eq_none_iff :
    typeReport? T passed name span ty = none ↔ T.validateWithin ty passed = .ok () := by
  rw [typeReport?]
  cases T.validateWithin ty passed <;> simp

lemma resultReport?_eq_none_iff :
    resultReport? T passed name span ty = none ↔
      ty.isArray = false ∧ T.validateWithin ty passed = .ok () := by
  rw [resultReport?]
  cases ty.isArray with
  | true => simp
  | false => simp [typeReport?_eq_none_iff]

lemma annotationReports_eq_nil_iff (T : TypeTable) (passed : List NodeId) (site : Site)
    (name : String) (params : List Param) (result : Option Ty) :
    annotationReports T passed site name params result = [] ↔
      (∀ ty ∈ params.filterMap Param.ty, T.validateWithin ty passed = .ok ()) ∧
        ∀ ty ∈ result, ty.isArray = false ∧ T.validateWithin ty passed = .ok () := by
  rw [annotationReports, List.append_eq_nil_iff, List.filterMap_eq_nil_iff,
    Option.toList_eq_nil_iff, Option.bind_eq_none_iff]
  simp only [Option.bind_eq_none_iff, typeReport?_eq_none_iff, resultReport?_eq_none_iff,
    List.mem_filterMap, Option.mem_def]
  refine and_congr_left' ⟨?_, fun h p hp ty hty => h ty ⟨p, hp, hty⟩⟩
  rintro h ty ⟨p, hp, hty⟩
  exact h p hp ty hty

lemma invalidType_of_typeReport? {r : Report} (h : typeReport? T passed name span ty = some r) :
    ∃ cause, r = .semantic (.invalidType cause name span) := by
  rw [typeReport?] at h
  split at h
  next => cases h
  next cause _ =>
    cases h
    exact ⟨cause, rfl⟩

lemma invalidType_of_resultReport? {r : Report} (h : resultReport? T passed name span ty = some r) :
    ∃ cause, r = .semantic (.invalidType cause name span) := by
  rw [resultReport?] at h
  split at h
  next =>
    cases h
    exact ⟨.arrayReturn, rfl⟩
  next => exact invalidType_of_typeReport? h

/-- The checks report nothing but types that are not well formed. -/
lemma annotationReports_eq_nil_of_forall {site : Site} {result : Option Ty}
    (h : ∀ cause subject span, .semantic (.invalidType cause subject span) ∉
      annotationReports T passed site name params result) :
    annotationReports T passed site name params result = [] := by
  refine List.eq_nil_iff_forall_not_mem.mpr fun r hr => ?_
  obtain ⟨cause, subject, span, rfl⟩ :
      ∃ cause subject span, r = .semantic (.invalidType cause subject span) := by
    rw [annotationReports] at hr
    rcases List.mem_append.mp hr with hparam | hresult
    · obtain ⟨p, -, hp⟩ := List.mem_filterMap.mp hparam
      obtain ⟨ty, -, hty⟩ := Option.bind_eq_some_iff.mp hp
      obtain ⟨cause, hcause⟩ := invalidType_of_typeReport? hty
      exact ⟨cause, p.name, p.site.span, hcause⟩
    · obtain ⟨ty, -, hty⟩ := Option.bind_eq_some_iff.mp (Option.mem_toList.mp hresult)
      obtain ⟨cause, hcause⟩ := invalidType_of_resultReport? hty
      exact ⟨cause, name, site.span, hcause⟩
  exact h cause subject span hr

end

section

variable {T : TypeTable} {defined : TypeInfo → Bool}

lemma check_func_iff {source target : Ty} :
    T.check defined (.func source target) = .ok () ↔
      T.check defined source = .ok () ∧ target.isArray = false ∧
        T.check defined target = .ok () := by
  rw [check]
  cases target.isArray with
  | true => simp
  | false => cases T.check defined source <;> simp

/-- Only the last arrow of a function type has the result as its target; the others have an arrow
there, which is no array. -/
lemma check_curried_iff {params : List Ty} (h : params ≠ []) (result : Ty) :
    T.check defined (Ty.curried params result) = .ok () ↔
      (∀ ty ∈ params, T.check defined ty = .ok ()) ∧ result.isArray = false ∧
        T.check defined result = .ok () := by
  induction params with
  | nil => exact absurd rfl h
  | cons param params ih =>
    have hcurried : Ty.curried (param :: params) result =
        .func param (Ty.curried params result) := rfl
    rw [hcurried, check_func_iff, List.forall_mem_cons]
    cases params with
    | nil => simp [Ty.curried]
    | cons param' params =>
      have harrow : (Ty.curried (param' :: params) result).isArray = false := rfl
      rw [ih (List.cons_ne_nil _ _), harrow]
      simp [and_assoc]

end

lemma mapM_ty (h : ∀ p ∈ params, p.ty.isSome = true) :
    params.mapM Param.ty = some (params.filterMap Param.ty) := by
  induction params with
  | nil => rfl
  | cons p params ih =>
    obtain ⟨hfirst, hrest⟩ := List.forall_mem_cons.mp h
    obtain ⟨ty, hty⟩ := Option.isSome_iff_exists.mp hfirst
    rw [List.mapM_cons, hty, ih hrest, List.filterMap_cons, hty]
    rfl

lemma functionType?_given (h : ∀ p ∈ params, p.ty.isSome = true) (r : Ty) :
    Def.functionType? params (some r) = some (Ty.curried (params.filterMap Param.ty) r) := by
  unfold Def.functionType?
  rw [mapM_ty h]

/-- The walk through a function definition starts with the checks of its annotations. If it has
parameters and all types are given, then these checks report no type that is not well formed exactly
if the type of the function, which is the hint for its placeholder, is well formed. -/
theorem annotations_checked_as_type (site : Site) (name : String) (params : List Param)
    (result : Option Ty) (body : Expr) (w : Walk) (hparams : params ≠ [])
    (hgiven : ∀ p ∈ params, p.ty.isSome = true) (hresult : result.isSome = true) :
    ∃ ty found, Def.functionType? params result = some ty ∧
      checkAnnotations site name params result w = ((), withReports w found) ∧
      (Def.function site name params result body).analyze w =
        walkFunction site name params result body (withReports w found) ∧
      ((∀ cause subject span, .semantic (.invalidType cause subject span) ∉ found) ↔
        w.types.validateWithin ty w.passed = .ok ()) := by
  obtain ⟨r, rfl⟩ := Option.isSome_iff_exists.mp hresult
  have hchecks := checkAnnotations_reports site name params (some r) w
  have htys : params.filterMap Param.ty ≠ [] := by
    obtain ⟨p, rest, rfl⟩ := List.exists_cons_of_ne_nil hparams
    obtain ⟨ty, hty⟩ := Option.isSome_iff_exists.mp (hgiven p List.mem_cons_self)
    rw [List.filterMap_cons_some hty]
    exact List.cons_ne_nil _ _
  have hty := functionType?_given hgiven r
  refine ⟨Ty.curried (params.filterMap Param.ty) r, _, hty, hchecks, ?_, ?_⟩
  · rw [analyze_function, bind_run, hchecks]
  · have hnone := annotationReports_eq_nil_iff w.types w.passed site name params (some r)
    rw [validateWithin, check_curried_iff htys]
    constructor
    · intro h
      obtain ⟨hall, hr⟩ := hnone.mp (annotationReports_eq_nil_of_forall h)
      exact ⟨hall, hr r rfl⟩
    · rintro ⟨hall, hr⟩ cause subject span hmem
      rw [hnone.mpr ⟨hall, fun ty hty => Option.some.inj hty ▸ hr⟩] at hmem
      exact List.not_mem_nil hmem

/-- An array and a function as parameters. -/
def gridParams : List Param :=
  [⟨⟨1, ⟨⟨0, 7⟩, ⟨0, 27⟩⟩⟩, "grid", some (.array .int 2)⟩,
    ⟨⟨2, ⟨⟨0, 29⟩, ⟨0, 45⟩⟩⟩, "keep", some (.func .int .bool)⟩]

/-- A function that returns an array is refused by the checks and as a whole. -/
theorem annotations_checked_gridParams :
    gridParams ≠ [] ∧ (∀ p ∈ gridParams, p.ty.isSome = true) ∧
    ∃ ty found, Def.functionType? gridParams (some (.array .int 2)) = some ty ∧
      checkAnnotations ⟨0, ⟨⟨0, 4⟩, ⟨0, 70⟩⟩⟩ "f" gridParams (some (.array .int 2))
        (Walk.initial TypeTable.initial 0) =
          ((), withReports (Walk.initial TypeTable.initial 0) found) ∧
      TypeTable.initial.validateWithin ty [] = .error .arrayReturn ∧
      ¬∀ cause subject span, .semantic (.invalidType cause subject span) ∉ found := by
  have hgiven : ∀ p ∈ gridParams, p.ty.isSome = true := by simp [gridParams]
  obtain ⟨ty, found, hty, hchecks, -, hiff⟩ :=
    annotations_checked_as_type ⟨0, ⟨⟨0, 4⟩, ⟨0, 70⟩⟩⟩ "f" gridParams (some (.array .int 2))
      (.const ⟨3, ⟨⟨0, 69⟩, ⟨0, 70⟩⟩⟩ .unit) (Walk.initial TypeTable.initial 0) (by decide) hgiven
      rfl
  cases hty
  have hrefused : TypeTable.initial.validateWithin
      (.func (.array .int 2) (.func (.func .int .bool) (.array .int 2))) [] =
        .error .arrayReturn := by decide
  refine ⟨by decide, hgiven, _, found, rfl, hchecks, hrefused, fun h => ?_⟩
  cases hrefused.symm.trans (hiff.mp h)

/-- Without parameters there is no arrow that an array could follow, but the checks refuse it all
the same. -/
example :
    annotationReports TypeTable.initial [] ⟨0, ⟨⟨0, 4⟩, ⟨0, 20⟩⟩⟩ "f" []
      (some (.array .int 1)) ≠ [] ∧
      Def.functionType? [] (some (.array .int 1)) = some (.array .int 1) ∧
      TypeTable.initial.validateWithin (.array .int 1) [] = .ok () := by
  decide

end Llama.Proofs
