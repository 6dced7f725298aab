import Llama.TypeTable
import Mathlib.Tactic.Common

/-!
# What entering type groups adds

A table that gains groups still knows what it knew, and what it knows besides belongs to the
groups that it gained. So a table that holds later groups already answers like one that does not
hold them yet, as long as it is asked about the earlier groups only.
-/

namespace Llama.Proofs

open TypeTable

/-- Enters groups one after the other. Gives the table and the errors. -/
def enterAll : TypeTable → List TypeGroup → TypeTable × List TypeError
  | table, [] => (table, [])
  | table, group :: rest =>
    let later := enterAll (table.enter group).1 rest
    (later.1, (table.enter group).2 ++ later.2)

lemma enterAll_append (table : TypeTable) (groups groups' : List TypeGroup) :
    enterAll table (groups ++ groups') =
      ((enterAll (enterAll table groups).1 groups').1,
        (enterAll table groups).2 ++ (enterAll (enterAll table groups).1 groups').2) := by
  induction groups generalizing table with
  | nil => rfl
  | cons group groups ih => simp only [List.cons_append, enterAll, ih, List.append_assoc]

/-- The second table knows what the first knows, and besides only what belongs to groups with
fresh numbers. -/
structure Gains (fresh : NodeId → Prop) (U T : TypeTable) : Prop where
  type : ∀ name info, U.lookup? name = some info →
    ∃ info', T.lookup? name = some info' ∧ info'.group = info.group
  newType : ∀ name info, U.lookup? name = none → T.lookup? name = some info →
    ∃ group, info.group = some group ∧ fresh group
  constructor : ∀ name info, U.constructor? name = some info → T.constructor? name = some info
  newConstructor : ∀ name info, U.constructor? name = none → T.constructor? name = some info →
    fresh info.group

variable {fresh fresh' : NodeId → Prop} {U V T : TypeTable}

namespace Gains

lemma refl (fresh : NodeId → Prop) (U : TypeTable) : Gains fresh U U where
  type _ info h := ⟨info, h, rfl⟩
  newType _ _ hnone hsome := by rw [hnone] at hsome; cases hsome
  constructor _ _ h := h
  newConstructor _ _ hnone hsome := by rw [hnone] at hsome; cases hsome

lemma mono (h : Gains fresh U T) (hfresh : ∀ id, fresh id → fresh' id) : Gains fresh' U T where
  type := h.type
  newType name info hnone hsome := by
    obtain ⟨group, hgroup, hf⟩ := h.newType name info hnone hsome
    exact ⟨group, hgroup, hfresh group hf⟩
  constructor := h.constructor
  newConstructor name info hnone hsome := hfresh _ (h.newConstructor name info hnone hsome)

lemma trans (h : Gains fresh U V) (h' : Gains fresh V T) : Gains fresh U T where
  type name info hsome := by
    obtain ⟨info', hsome', hgroup⟩ := h.type name info hsome
    obtain ⟨info'', hsome'', hgroup'⟩ := h'.type name info' hsome'
    exact ⟨info'', hsome'', hgroup'.trans hgroup⟩
  newType name info hnone hsome := by
    cases hV : V.lookup? name with
    | none => exact h'.newType name info hV hsome
    | some info' =>
      obtain ⟨group, hgroup, hf⟩ := h.newType name info' hnone hV
      obtain ⟨info'', hsome'', hgroup'⟩ := h'.type name info' hV
      obtain rfl : info'' = info := Option.some.inj (hsome''.symm.trans hsome)
      exact ⟨group, hgroup'.trans hgroup, hf⟩
  constructor name info hsome := h'.constructor name info (h.constructor name info hsome)
  newConstructor name info hnone hsome := by
    cases hV : V.constructor? name with
    | none => exact h'.newConstructor name info hV hsome
    | some info' =>
      have hf := h.newConstructor name info' hnone hV
      have hsome' := h'.constructor name info' hV
      obtain rfl : info' = info := Option.some.inj (hsome'.symm.trans hsome)
      exact hf

end Gains

lemma lookup?_addType (U : TypeTable) (group : NodeId) (d : TypeDef) (name : String) :
    (U.addType group d).lookup? name = (U.lookup? name).or
      ([TypeInfo.mk d.name (some d.site) (some group) []].find? fun info => info.name == name) :=
  List.find?_append

lemma gains_addType (U : TypeTable) (group : NodeId) (d : TypeDef) :
    Gains (· = group) U (U.addType group d) := by
  refine ⟨fun name info hsome => ⟨info, ?_, rfl⟩, fun name info hnone hsome => ?_,
    fun _ _ h => h, fun _ _ hnone hsome => ?_⟩
  · rw [lookup?_addType, hsome]
    rfl
  · rw [lookup?_addType, hnone, Option.none_or] at hsome
    obtain rfl := List.mem_singleton.mp (List.mem_of_find?_eq_some hsome)
    exact ⟨group, rfl, rfl⟩
  · have hsame : U.constructor? _ = some _ := hsome
    rw [hnone] at hsame
    cases hsame

lemma gains_enterNames (group : NodeId) (defs : List TypeDef) (U : TypeTable) :
    Gains (· = group) U (enterNames group defs U).1 ∧
      (enterNames group defs U).1.entered = U.entered := by
  induction defs generalizing U with
  | nil => exact ⟨.refl _ U, rfl⟩
  | cons d defs ih =>
    unfold enterNames
    cases U.nameClash? d with
    | some e => exact ih U
    | none =>
      obtain ⟨hgains, hentered⟩ := ih (U.addType group d)
      exact ⟨(gains_addType U group d).trans hgains, hentered⟩

lemma listUnder_name (owner constructor : String) (info : TypeInfo) :
    (listUnder owner constructor info).name = info.name ∧
      (listUnder owner constructor info).group = info.group := by
  unfold listUnder
  split <;> exact ⟨rfl, rfl⟩

lemma lookup?_addConstructor (U : TypeTable) (group : NodeId) (owner : String)
    (c : ConstructorDef) (name : String) :
    (U.addConstructor group owner c).lookup? name =
      (U.lookup? name).map (listUnder owner c.name) := by
  have hnames : (fun info : TypeInfo => info.name == name) ∘ listUnder owner c.name =
      fun info => info.name == name := by
    funext info
    simp [(listUnder_name owner c.name info).1]
  unfold TypeTable.lookup? addConstructor
  rw [List.find?_map, hnames]

lemma constructor?_addConstructor (U : TypeTable) (group : NodeId) (owner : String)
    (c : ConstructorDef) (name : String) :
    (U.addConstructor group owner c).constructor? name =
      (U.constructor? name).or ([ConstructorInfo.mk c.name owner c.args c.site group].find?
        fun info => info.name == name) :=
  List.find?_append

lemma gains_addConstructor (U : TypeTable) (group : NodeId) (owner : String)
    (c : ConstructorDef) : Gains (· = group) U (U.addConstructor group owner c) := by
  refine ⟨fun name info hsome => ?_, fun name info hnone hsome => ?_,
    fun name info hsome => ?_, fun name info hnone hsome => ?_⟩
  · rw [lookup?_addConstructor, hsome]
    exact ⟨_, rfl, (listUnder_name owner c.name info).2⟩
  · rw [lookup?_addConstructor, hnone] at hsome
    cases hsome
  · rw [constructor?_addConstructor, hsome]
    rfl
  · rw [constructor?_addConstructor, hnone, Option.none_or] at hsome
    obtain rfl := List.mem_singleton.mp (List.mem_of_find?_eq_some hsome)
    rfl

lemma gains_enterConstructors (group : NodeId) (cs : List (String × ConstructorDef))
    (U : TypeTable) :
    Gains (· = group) U (enterConstructors group cs U).1 ∧
      (enterConstructors group cs U).1.entered = U.entered := by
  induction cs generalizing U with
  | nil => exact ⟨.refl _ U, rfl⟩
  | cons c cs ih =>
    obtain ⟨owner, c⟩ := c
    have hrun : (enterConstructors group ((owner, c) :: cs) U).1 =
        (enterConstructors group cs (U.enterConstructor group owner c).1).1 := rfl
    rw [hrun]
    unfold enterConstructor
    cases U.constructor? c.name with
    | some previous => exact ih U
    | none =>
      obtain ⟨hgains, hentered⟩ := ih (U.addConstructor group owner c)
      exact ⟨(gains_addConstructor U group owner c).trans hgains, hentered⟩

lemma enter_of_entered {group : TypeGroup} (h : group.site.id ∈ U.entered) :
    U.enter group = (U, []) := by
  have hcontains : U.entered.contains group.site.id = true := List.contains_iff_mem.mpr h
  rw [TypeTable.enter, if_pos hcontains]

/-- A group that is entered brings its own number and what belongs to it. -/
lemma gains_enter (U : TypeTable) (group : TypeGroup) :
    Gains (· ∉ U.entered) U (U.enter group).1 ∧
      ∀ id, id ∈ (U.enter group).1.entered ↔ id = group.site.id ∨ id ∈ U.entered := by
  by_cases hentered : group.site.id ∈ U.entered
  · rw [enter_of_entered hentered]
    refine ⟨.refl _ U, fun id => ⟨.inr, fun h => ?_⟩⟩
    rcases h with rfl | h
    · exact hentered
    · exact h
  · let start : TypeTable := { U with entered := group.site.id :: U.entered }
    let named := enterNames group.site.id group.defs start
    have hrun : (U.enter group).1 =
        (enterConstructors group.site.id (ownedConstructors named.2.1) named.1).1 := by
      have hcontains : ¬U.entered.contains group.site.id = true := fun h =>
        hentered (List.contains_iff_mem.mp h)
      rw [TypeTable.enter, if_neg hcontains]
    obtain ⟨hnames, hentered₁⟩ := gains_enterNames group.site.id group.defs start
    obtain ⟨hconstructors, hentered₂⟩ :=
      gains_enterConstructors group.site.id (ownedConstructors named.2.1) named.1
    have hgains : Gains (· = group.site.id) start (U.enter group).1 := by
      rw [hrun]
      exact hnames.trans hconstructors
    refine ⟨?_, fun id => ?_⟩
    · refine Gains.mono ⟨hgains.type, hgains.newType, hgains.constructor, hgains.newConstructor⟩ ?_
      rintro id rfl
      exact hentered
    · rw [hrun, hentered₂, hentered₁]
      exact List.mem_cons

lemma gains_enterAll (groups : List TypeGroup) (U : TypeTable) :
    Gains (· ∉ U.entered) U (enterAll U groups).1 ∧
      ∀ id ∈ U.entered, id ∈ (enterAll U groups).1.entered := by
  induction groups generalizing U with
  | nil => exact ⟨.refl _ U, fun _ h => h⟩
  | cons group groups ih =>
    obtain ⟨hfirst, hentered⟩ := gains_enter U group
    obtain ⟨hrest, hentered'⟩ := ih (U.enter group).1
    refine ⟨hfirst.trans (hrest.mono fun id hid h => ?_), fun id hid => ?_⟩
    · exact hid ((hentered id).mpr (.inr h))
    · exact hentered' id ((hentered id).mpr (.inr hid))

/-! ### Questions about earlier groups -/

/-- A type is well formed within some groups no matter what later groups define. -/
lemma Gains.validateWithin {groups : List NodeId} (h : Gains (· ∉ U.entered) U T)
    (hgroups : ∀ id ∈ groups, id ∈ U.entered) (ty : Ty) :
    T.validateWithin ty groups = U.validateWithin ty groups := by
  unfold TypeTable.validateWithin
  induction ty with
  | array element dims ih | ref element ih => simp only [TypeTable.check, ih]
  | func source target ihs iht => simp only [TypeTable.check, ihs, iht]
  | user name =>
    simp only [TypeTable.check]
    cases hU : U.lookup? name with
    | some info =>
      obtain ⟨info', hT, hgroup⟩ := h.type name info hU
      have hdefined : definedWithin groups info' = definedWithin groups info := by
        rw [definedWithin, definedWithin, hgroup]
      rw [hT]
      simp only [hdefined]
    | none =>
      cases hT : T.lookup? name with
      | none => rfl
      | some info =>
        obtain ⟨group, hgroup, hfresh⟩ := h.newType name info hU hT
        have hout : group ∉ groups := fun hmem => hfresh (hgroups group hmem)
        simp [definedWithin, hgroup, hout]
  | _ => rfl

/-- So is what constructor a name stands for. -/
lemma Gains.constructorWithin? {groups : List NodeId} (h : Gains (· ∉ U.entered) U T)
    (hgroups : ∀ id ∈ groups, id ∈ U.entered) (name : String) :
    T.constructorWithin? name groups = U.constructorWithin? name groups := by
  unfold TypeTable.constructorWithin?
  cases hU : U.constructor? name with
  | some info => rw [h.constructor name info hU]
  | none =>
    cases hT : T.constructor? name with
    | none => rfl
    | some info =>
      have hfresh := h.newConstructor name info hU hT
      have hout : info.group ∉ groups := fun hmem => hfresh (hgroups info.group hmem)
      simp [hout]

end Llama.Proofs
