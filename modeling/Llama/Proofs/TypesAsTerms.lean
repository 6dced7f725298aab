import Llama.Proofs.RecordedTypes

/-!
# Types as terms

A type is a term without placeholders. Written as a term it has the same text and the same shape,
and it can be taken back. Every term without placeholders is such a type, and a function type that
takes its parameters one after the other is the function term that does so.
-/

namespace Llama.Proofs

variable {ty : Ty} {term : Term}

lemma isFunc_toTerm (ty : Ty) : ty.toTerm.isFunc = ty.isFunc := by
  cases ty <;> rfl

lemma isArray_toTerm (ty : Ty) : ty.toTerm.isArray = ty.isArray := by
  cases ty <;> rfl

lemma kind?_toTerm (ty : Ty) : ty.toTerm.kind? = some ty.kind := by
  cases ty <;> rfl

/-- The same operands stand in parentheses. -/
lemma text_toTerm (ty : Ty) : ty.toTerm.text = ty.text := by
  induction ty with
  | array element dims ih =>
    rw [Ty.toTerm, Term.text, Ty.text, isFunc_toTerm, isArray_toTerm, ih]
  | func source target ihs iht =>
    rw [Ty.toTerm, Term.text, Ty.text, isFunc_toTerm, ihs, iht]
  | ref inner ih =>
    rw [Ty.toTerm, Term.text, Ty.text, isFunc_toTerm, isArray_toTerm, ih]
  | _ => rfl

lemma toTerm_curried (params : List Ty) (result : Ty) :
    (Ty.curried params result).toTerm = Term.curried (params.map Ty.toTerm) result.toTerm := by
  induction params with
  | nil => rfl
  | cons param params ih => exact congrArg (Term.func param.toTerm) ih

lemma toTerm_of_toTy? (h : term.toTy? = some ty) : ty.toTerm = term := by
  induction term generalizing ty with
  | array element dims ih =>
    obtain ⟨inner, hinner, rfl⟩ := Option.map_eq_some_iff.mp h
    rw [Ty.toTerm, ih hinner]
  | func source target ihs iht =>
    rw [Term.toTy?] at h
    split at h
    next source' target' hsource htarget =>
      cases h
      rw [Ty.toTerm, ihs hsource, iht htarget]
    next => cases h
  | ref inner ih =>
    obtain ⟨inner', hinner, rfl⟩ := Option.map_eq_some_iff.mp h
    rw [Ty.toTerm, ih hinner]
  | temp tag => cases h
  | _ =>
    cases h
    rfl

lemma exists_toTy?_of_tags (h : term.tags = []) : ∃ ty, term.toTy? = some ty := by
  induction term with
  | array element dims ih =>
    obtain ⟨ty, hty⟩ := ih h
    exact ⟨.array ty dims, by rw [Term.toTy?, hty, Option.map_some]⟩
  | func source target ihs iht =>
    obtain ⟨hsource, htarget⟩ := List.append_eq_nil_iff.mp h
    obtain ⟨source', hsource'⟩ := ihs hsource
    obtain ⟨target', htarget'⟩ := iht htarget
    exact ⟨.func source' target', by rw [Term.toTy?, hsource', htarget']⟩
  | ref inner ih =>
    obtain ⟨ty, hty⟩ := ih h
    exact ⟨.ref ty, by rw [Term.toTy?, hty, Option.map_some]⟩
  | temp tag => cases h
  | _ => exact ⟨_, rfl⟩

lemma isSome_toTy?_iff (term : Term) : term.toTy?.isSome = true ↔ term.tags = [] := by
  rw [Option.isSome_iff_exists]
  refine ⟨?_, exists_toTy?_of_tags⟩
  rintro ⟨ty, hty⟩
  rw [← toTerm_of_toTy? hty]
  exact Ty.tags_toTerm ty

/-- A type as a term has the text, the shape and the value of the type. A term is a type exactly if
it has no placeholders, and then it is that type as a term. Function types and function terms are
put together alike. -/
theorem terms_extend_types :
    (∀ ty : Ty, ty.toTerm.text = ty.text ∧ ty.toTerm.kind? = some ty.kind ∧
      ty.toTerm.toTy? = some ty) ∧
    (∀ term : Term, (term.toTy?.isSome = true ↔ term.tags = []) ∧
      ∀ ty, term.toTy? = some ty → ty.toTerm = term) ∧
    ∀ (params : List Ty) (result : Ty),
      (Ty.curried params result).toTerm =
        Term.curried (params.map Ty.toTerm) result.toTerm :=
  ⟨fun ty => ⟨text_toTerm ty, kind?_toTerm ty, Ty.toTy?_toTerm ty⟩,
    fun term => ⟨isSome_toTy?_iff term, fun _ => toTerm_of_toTy?⟩, toTerm_curried⟩

end Llama.Proofs
