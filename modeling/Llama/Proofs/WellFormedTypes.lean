import Llama.Proofs.TableRepresentation

/-!
# Well-formed types

A type is well-formed in a table if all its names are defined there and it is put together as types
may be. It stays so in every table that gains entries. A table is well-formed if all arguments of
its constructors are, and a table stays well-formed when a group is entered without a problem.
-/

namespace Llama.Proofs

open TypeTable

variable {T T' : TypeTable}

def Valid (T : TypeTable) (ty : Ty) : Prop := T.validate ty = .ok ()

lemma check_mono {defined defined' : TypeInfo → Bool}
    (h : ∀ name info, T.lookup? name = some info → defined info = true →
      ∃ info', T'.lookup? name = some info' ∧ defined' info' = true)
    (ty : Ty) (hty : T.check defined ty = .ok ()) : T'.check defined' ty = .ok () := by
  induction ty with
  | array element dims ih =>
    rw [check] at hty ⊢
    split at hty
    next => cases hty
    next hshape =>
      rw [if_neg hshape]
      exact ih hty
  | func source target ihs iht =>
    rw [check] at hty ⊢
    split at hty
    next => cases hty
    next hshape =>
      rw [if_neg hshape]
      cases hsource : T.check defined source with
      | error cause =>
        rw [hsource] at hty
        cases hty
      | ok =>
        rw [hsource] at hty
        rw [ihs hsource]
        exact iht hty
  | ref inner ih =>
    rw [check] at hty ⊢
    split at hty
    next => cases hty
    next hshape =>
      rw [if_neg hshape]
      exact ih hty
  | user name =>
    rw [check] at hty ⊢
    cases hfound : T.lookup? name with
    | none =>
      rw [hfound] at hty
      cases hty
    | some info =>
      rw [hfound] at hty
      by_cases hdefined : defined info = true
      · obtain ⟨info', hfound', hdefined'⟩ := h name info hfound hdefined
        rw [hfound']
        exact if_pos hdefined'
      · simp only [hdefined] at hty
        cases hty
  | _ => rfl

lemma valid_of_within {ty : Ty} {groups : List NodeId}
    (h : T.validateWithin ty groups = .ok ()) : Valid T ty :=
  check_mono (fun _ info hfound _ => ⟨info, hfound, rfl⟩) ty h

lemma Gains.valid {fresh : NodeId → Prop} (h : Gains fresh T T') {ty : Ty} (hty : Valid T ty) :
    Valid T' ty := by
  refine check_mono (fun name info hfound _ => ?_) ty hty
  obtain ⟨info', hfound', -⟩ := h.type name info hfound
  exact ⟨info', hfound', rfl⟩

lemma valid_func {source target : Ty} (hsource : Valid T source) (htarget : Valid T target)
    (hshape : target.isArray = false) : Valid T (.func source target) := by
  rw [Valid, TypeTable.validate, check, hshape, if_neg Bool.false_ne_true]
  have hs : T.check (fun _ => true) source = .ok () := hsource
  rw [hs]
  exact htarget

lemma valid_curried {params : List Ty} {result : Ty} (hparams : ∀ ty ∈ params, Valid T ty)
    (hresult : Valid T result) (hshape : result.isArray = false) :
    Valid T (Ty.curried params result) := by
  have hboth : Valid T (Ty.curried params result) ∧
      (Ty.curried params result).isArray = false := by
    induction params with
    | nil => exact ⟨hresult, hshape⟩
    | cons ty params ih =>
      obtain ⟨hfirst, hrest⟩ := List.forall_mem_cons.mp hparams
      obtain ⟨hvalid, hother⟩ := ih hrest
      exact ⟨valid_func hfirst hvalid hother, rfl⟩
  exact hboth.1

/-- The types that constructors mention are well formed. -/
def WellFormed (T : TypeTable) : Prop :=
  ∀ c ∈ T.constructors, ∀ ty ∈ c.args, Valid T ty

lemma WellFormed.gains {fresh : NodeId → Prop} (h : WellFormed T) (hgains : Gains fresh T T')
    (hconstructors : T'.constructors = T.constructors) : WellFormed T' := by
  intro c hc ty hty
  rw [hconstructors] at hc
  exact hgains.valid (h c hc ty hty)

lemma argumentErrors_eq_nil {c : ConstructorDef} (h : T.argumentErrors c = []) :
    ∀ ty ∈ c.args, Valid T ty := by
  intro ty hty
  have hnone := List.filterMap_eq_nil_iff.mp h ty hty
  cases hvalid : T.validate ty with
  | ok => exact hvalid
  | error cause =>
    rw [hvalid] at hnone
    cases hnone

lemma WellFormed.enterConstructor (h : WellFormed T) {group : NodeId} {owner : String}
    {c : ConstructorDef} (hclean : (T.enterConstructor group owner c).2 = []) :
    WellFormed (T.enterConstructor group owner c).1 := by
  unfold TypeTable.enterConstructor at hclean ⊢
  cases hfound : T.constructor? c.name with
  | some previous => exact h
  | none =>
    rw [hfound] at hclean
    intro info hinfo ty hty
    rcases List.mem_append.mp hinfo with hold | hnew
    · exact (gains_addConstructor T group owner c).valid (h info hold ty hty)
    · obtain rfl := List.mem_singleton.mp hnew
      exact argumentErrors_eq_nil hclean ty hty

lemma WellFormed.enterConstructors (h : WellFormed T) {group : NodeId}
    (cs : List (String × ConstructorDef)) (hclean : (enterConstructors group cs T).2 = []) :
    WellFormed (enterConstructors group cs T).1 := by
  induction cs generalizing T with
  | nil => exact h
  | cons c cs ih =>
    obtain ⟨owner, c⟩ := c
    obtain ⟨hfirst, hrest⟩ := List.append_eq_nil_iff.mp hclean
    exact ih (h.enterConstructor hfirst) hrest

lemma WellFormed.enter (h : WellFormed T) {group : TypeGroup} (hclean : (T.enter group).2 = []) :
    WellFormed (T.enter group).1 := by
  by_cases hentered : group.site.id ∈ T.entered
  · rw [enter_of_entered hentered]
    exact h
  · have hskip : ¬T.entered.contains group.site.id = true := fun hmem =>
      hentered (List.contains_iff_mem.mp hmem)
    rw [TypeTable.enter, if_neg hskip] at hclean ⊢
    obtain ⟨-, hrest⟩ := List.append_eq_nil_iff.mp hclean
    let start : TypeTable := { T with entered := group.site.id :: T.entered }
    have hstart : WellFormed start := by
      intro c hc ty hty
      refine check_mono (fun name info hfound _ => ?_) ty (h c hc ty hty)
      exact ⟨info, hfound, rfl⟩
    have hnames : WellFormed (enterNames group.site.id group.defs start).1 := by
      refine hstart.gains (gains_enterNames group.site.id group.defs start).1 ?_
      rw [(enterNames_eq group.site.id group.defs start).1]
    exact hnames.enterConstructors _ hrest

lemma WellFormed.enterAll (h : WellFormed T) {groups : List TypeGroup}
    (hclean : (enterAll T groups).2 = []) : WellFormed (enterAll T groups).1 := by
  induction groups generalizing T with
  | nil => exact h
  | cons group groups ih =>
    obtain ⟨hfirst, hrest⟩ := List.append_eq_nil_iff.mp hclean
    exact ih (h.enter hfirst) hrest

lemma valid_owner {groups : List TypeGroup} (h : Tabulates groups T) {c : ConstructorInfo}
    (hc : c ∈ T.constructors) : Valid T (.user c.owner) := by
  obtain ⟨info, hinfo, hname, -⟩ := h.owned c hc
  rw [Valid, TypeTable.validate, check]
  cases hfound : T.lookup? c.owner with
  | some => rfl
  | none =>
    exact absurd (List.mem_map.mpr ⟨info, hinfo, hname⟩) (lookup?_eq_none_iff.mp hfound)

/-- What constructors bring into constraints is well formed: their owners and their arguments. -/
structure Sourced (T : TypeTable) : Prop where
  owner : ∀ c ∈ T.constructors, Valid T (.user c.owner)
  args : WellFormed T

end Llama.Proofs
