import Llama.Proofs.TypeValidity
import Mathlib.Data.List.Flatten
import Mathlib.Data.List.Perm.Basic

/-!
# The order of the definitions of a group

All names of a group are entered before any type in it is checked. So if no name comes twice in
the group, nothing that can be asked of the table afterwards depends on the order of its
definitions, not even where some of them clash with what the table held before.
-/

namespace Llama.Proofs

open TypeTable

variable {d : TypeDef} {T T' : TypeTable}

section

variable {α : Type} {name : α → String}

lemma newcomers_of_nodup {l : List α} (h : (l.map name).Nodup) (taken : List String) :
    newcomers name taken l = l.filter fun a => name a ∉ taken := by
  induction l generalizing taken with
  | nil => rfl
  | cons a l ih =>
    obtain ⟨hnew, hrest⟩ := List.nodup_cons.mp h
    unfold newcomers
    by_cases ha : name a ∈ taken
    · rw [if_pos ha, List.filter_cons_of_neg (by simpa using ha), ih hrest]
    · rw [if_neg ha, List.filter_cons_of_pos (by simpa using ha), ih hrest]
      refine congrArg (a :: ·) (List.filter_congr fun b hb => ?_)
      have hother : name b ≠ name a := fun heq => hnew (heq ▸ List.mem_map_of_mem hb)
      simp [hother]

lemma find?_perm {l l' : List α} (hperm : l.Perm l') (h : (l'.map name).Nodup) (n : String) :
    l.find? (fun a => name a == n) = l'.find? fun a => name a == n := by
  refine Option.ext fun a => ?_
  rw [find?_eq_some_iff_of_nodup h,
    find?_eq_some_iff_of_nodup ((hperm.map name).nodup_iff.mpr h), hperm.mem_iff]

end

lemma names_owned (ds : List TypeDef) :
    (ownedConstructors ds).map (fun c => c.2.name) =
      ds.flatMap fun d => d.constructors.map ConstructorDef.name := by
  simp [ownedConstructors, List.map_flatMap, Function.comp_def]

/-- No two types of a group have the same name, and no two constructors. -/
structure Distinct (group : TypeGroup) : Prop where
  types : (group.defs.map TypeDef.name).Nodup
  constructors : (group.defs.flatMap fun d => d.constructors.map ConstructorDef.name).Nodup

namespace Distinct

variable {T : TypeTable} {group group' : TypeGroup}

lemma perm (h : Distinct group) (horder : group'.defs.Perm group.defs) : Distinct group' where
  types := (horder.map _).nodup_iff.mpr h.types
  constructors := (horder.flatMap_right _).nodup_iff.mpr h.constructors

lemma enteredDefs_eq (h : Distinct group) (T : TypeTable) :
    enteredDefs T group = group.defs.filter fun d => d.name ∉ T.types.map TypeInfo.name :=
  newcomers_of_nodup h.types _

lemma owned_nodup (h : Distinct group) (T : TypeTable) :
    ((ownedConstructors (enteredDefs T group)).map fun c => c.2.name).Nodup := by
  rw [names_owned]
  exact h.constructors.sublist (newcomers_sublist.flatMap _)

lemma enteredConstructors_eq (h : Distinct group) (T : TypeTable) :
    enteredConstructors T group = (ownedConstructors (enteredDefs T group)).filter fun c =>
      c.2.name ∉ T.constructors.map ConstructorInfo.name :=
  newcomers_of_nodup (h.owned_nodup T) _

/-- A type gets those of its constructors whose names are not taken, in the order of its own
definition. -/
lemma filter_entered (h : Distinct group) (hd : d ∈ enteredDefs T group) :
    (enteredConstructors T group).filter (fun c => c.1 == d.name) =
      (d.constructors.map fun c => (d.name, c)).filter fun c =>
        c.2.name ∉ T.constructors.map ConstructorInfo.name := by
  have howned : (ownedConstructors (enteredDefs T group)).filter (fun c => c.1 == d.name) =
      d.constructors.map fun c => (d.name, c) := owned_filter newcomers_nodup hd
  rw [h.enteredConstructors_eq, List.filter_comm, howned]

end Distinct

/-- Two tables answer all questions alike. -/
structure SameAnswers (T T' : TypeTable) : Prop where
  lookup : ∀ name, T.lookup? name = T'.lookup? name
  constructor : ∀ name, T.constructor? name = T'.constructor? name
  constructorsOf : ∀ name, T.constructorsOf name = T'.constructorsOf name
  validate : ∀ ty, T.validate ty = T'.validate ty
  validateWithin : ∀ ty groups, T.validateWithin ty groups = T'.validateWithin ty groups

lemma check_congr {defined : TypeInfo → Bool} (h : Recognizes T defined = Recognizes T' defined)
    (ty : Ty) : T.check defined ty = T'.check defined ty := by
  have hjudges := judges_check T' defined ty
  rw [← h] at hjudges
  rcases check_cases T defined ty with ⟨hok, hadmissible⟩ | ⟨cause, herror, hfirst⟩
  · rw [hok, hjudges.accepts.mpr hadmissible]
  · rw [herror, (hjudges.refuses cause).mpr hfirst]

lemma sameAnswers_of_lookups (htypes : ∀ name, T.lookup? name = T'.lookup? name)
    (hconstructors : ∀ name, T.constructor? name = T'.constructor? name) : SameAnswers T T' := by
  have hcheck : ∀ (defined : TypeInfo → Bool) ty, T.check defined ty = T'.check defined ty := by
    intro defined ty
    refine check_congr (funext fun name => ?_) ty
    rw [Recognizes, Recognizes, htypes]
  have hsame : T.constructor? = T'.constructor? := funext hconstructors
  refine ⟨htypes, hconstructors, fun name => ?_, hcheck _, fun ty groups => hcheck _ ty⟩
  rw [TypeTable.constructorsOf, TypeTable.constructorsOf, htypes, hsame]

section

variable {T : TypeTable} {group group' : TypeGroup}

lemma enteredDefs_perm (h : Distinct group) (horder : group'.defs.Perm group.defs) :
    (enteredDefs T group').Perm (enteredDefs T group) := by
  rw [h.enteredDefs_eq, (h.perm horder).enteredDefs_eq]
  exact horder.filter _

lemma enteredConstructors_perm (h : Distinct group) (horder : group'.defs.Perm group.defs) :
    (enteredConstructors T group').Perm (enteredConstructors T group) := by
  rw [h.enteredConstructors_eq, (h.perm horder).enteredConstructors_eq]
  exact ((enteredDefs_perm h horder).flatMap_right _).filter _

lemma listAll_perm (h : Distinct group) (horder : group'.defs.Perm group.defs)
    (hd : d ∈ enteredDefs T group) (id : NodeId) :
    listAll (enteredConstructors T group') (typeEntry id d) =
      listAll (enteredConstructors T group) (typeEntry id d) := by
  have hd' : d ∈ enteredDefs T group' := (enteredDefs_perm h horder).mem_iff.mpr hd
  have hsame := ((h.perm horder).filter_entered hd').trans (h.filter_entered hd).symm
  unfold listAll
  rw [show (typeEntry id d).name = d.name from rfl, hsame]

lemma enter_sameAnswers (h : Distinct group) (horder : group'.defs.Perm group.defs)
    (hid : group'.site.id = group.site.id) (hnew : group.site.id ∉ T.entered) :
    SameAnswers (T.enter group').1 (T.enter group).1 := by
  rw [enter_eq hnew, enter_eq (hid ▸ hnew), hid]
  refine sameAnswers_of_lookups (fun name => ?_) (fun name => ?_)
  · have hfind : (enteredDefs T group').find? (fun d => d.name == name) =
        (enteredDefs T group).find? fun d => d.name == name :=
      find?_perm (enteredDefs_perm h horder) newcomers_nodup name
    unfold TypeTable.lookup?
    rw [List.find?_append, List.find?_append, List.find?_map, List.find?_map]
    refine congrArg (Option.or _) ((congrArg (Option.map _) hfind).trans ?_)
    refine Option.map_congr fun d hd => ?_
    exact listAll_perm h horder (List.mem_of_find?_eq_some hd) _
  · have hfind : (enteredConstructors T group').find? (fun c => c.2.name == name) =
        (enteredConstructors T group).find? fun c => c.2.name == name :=
      find?_perm (enteredConstructors_perm h horder) newcomers_nodup name
    unfold TypeTable.constructor?
    rw [List.find?_append, List.find?_append, List.find?_map, List.find?_map]
    exact congrArg (Option.or _) (congrArg (Option.map _) hfind)

end

lemma nameClash?_addType {d' : TypeDef} (h : d'.name ≠ d.name) (id : NodeId) (T : TypeTable) :
    (T.addType id d).nameClash? d' = T.nameClash? d' := by
  rw [nameClash?, nameClash?, lookup?_addType, List.find?_singleton]
  simp [h.symm]

lemma enterNames_errors {defs : List TypeDef} (h : (defs.map TypeDef.name).Nodup) (id : NodeId)
    (T : TypeTable) : (enterNames id defs T).2.2 = defs.filterMap T.nameClash? := by
  induction defs generalizing T with
  | nil => rfl
  | cons d defs ih =>
    obtain ⟨hnew, hrest⟩ := List.nodup_cons.mp h
    unfold enterNames
    cases hclash : T.nameClash? d with
    | some e =>
      rw [List.filterMap_cons_some hclash]
      exact congrArg (e :: ·) (ih hrest T)
    | none =>
      rw [List.filterMap_cons_none hclash]
      refine (ih hrest (T.addType id d)).trans (List.filterMap_congr fun d' hd' => ?_)
      exact nameClash?_addType (fun heq => hnew (heq ▸ List.mem_map_of_mem hd')) id T

lemma contains_iff_mem {name : String} :
    T.contains name = true ↔ name ∈ T.types.map TypeInfo.name := by
  rw [TypeTable.contains, Option.isSome_iff_ne_none, Ne, lookup?_eq_none_iff, not_not]

lemma contains_addConstructor (T : TypeTable) (id : NodeId) (owner : String) (c : ConstructorDef)
    (name : String) : (T.addConstructor id owner c).contains name = T.contains name := by
  rw [TypeTable.contains, TypeTable.contains, lookup?_addConstructor, Option.isSome_map]

lemma argumentErrors_congr (h : ∀ name, T.contains name = T'.contains name) (c : ConstructorDef) :
    T.argumentErrors c = T'.argumentErrors c := by
  have hvalidate : ∀ ty, T.validate ty = T'.validate ty := by
    refine check_congr (funext fun name => ?_)
    have hname := h name
    rw [TypeTable.contains, TypeTable.contains, Bool.eq_iff_iff, Option.isSome_iff_exists,
      Option.isSome_iff_exists] at hname
    simp only [Recognizes, and_true, hname]
  unfold TypeTable.argumentErrors
  simp only [hvalidate]

/-- What is wrong with a constructor depends on the constructors and on the names of types only. -/
lemma enterConstructor_errors_congr {c : ConstructorDef}
    (htypes : ∀ name, T.contains name = T'.contains name)
    (hconstructor : T.constructor? c.name = T'.constructor? c.name) (id : NodeId) (owner : String) :
    (T.enterConstructor id owner c).2 = (T'.enterConstructor id owner c).2 := by
  unfold TypeTable.enterConstructor
  rw [hconstructor]
  cases T'.constructor? c.name with
  | some previous => rfl
  | none =>
    refine argumentErrors_congr (fun name => ?_) c
    rw [contains_addConstructor, contains_addConstructor, htypes]

lemma contains_enterConstructor (T : TypeTable) (id : NodeId) (owner : String) (c : ConstructorDef)
    (name : String) : (T.enterConstructor id owner c).1.contains name = T.contains name := by
  unfold TypeTable.enterConstructor
  cases T.constructor? c.name with
  | some previous => rfl
  | none => exact contains_addConstructor T id owner c name

lemma constructor?_enterConstructor {c : ConstructorDef} {name : String} (h : name ≠ c.name)
    (T : TypeTable) (id : NodeId) (owner : String) :
    (T.enterConstructor id owner c).1.constructor? name = T.constructor? name := by
  unfold TypeTable.enterConstructor
  cases T.constructor? c.name with
  | some previous => rfl
  | none =>
    refine (constructor?_addConstructor T id owner c name).trans ?_
    simp [h.symm]

/-- If no two constructors have the same name, each is judged as if it came first. -/
lemma enterConstructors_errors {cs : List (String × ConstructorDef)}
    (h : (cs.map fun c => c.2.name).Nodup) (id : NodeId) (T : TypeTable) :
    (enterConstructors id cs T).2 = cs.flatMap fun c => (T.enterConstructor id c.1 c.2).2 := by
  induction cs generalizing T with
  | nil => rfl
  | cons c cs ih =>
    obtain ⟨hnew, hrest⟩ := List.nodup_cons.mp h
    have hrun : (enterConstructors id (c :: cs) T).2 = (T.enterConstructor id c.1 c.2).2 ++
        (enterConstructors id cs (T.enterConstructor id c.1 c.2).1).2 := rfl
    rw [hrun, ih hrest, List.flatMap_cons]
    refine congrArg (_ ++ ·) (List.flatMap_congr fun c' hc' => ?_)
    refine enterConstructor_errors_congr (contains_enterConstructor T id c.1 c.2) ?_ id c'.1
    refine constructor?_enterConstructor (fun heq => hnew ?_) T id c.1
    exact List.mem_map.mpr ⟨c', hc', heq⟩

section

variable {T : TypeTable} {group group' : TypeGroup}

/-- The table in which all names of a group are entered and none of its constructors. -/
def withNames (T : TypeTable) (group : TypeGroup) : TypeTable :=
  ⟨T.types ++ (enteredDefs T group).map (typeEntry group.site.id), T.constructors,
    group.site.id :: T.entered⟩

/-- The errors of a group are the clashes of its types with the table, and what is wrong with the
constructors of the others once all names are entered. -/
lemma Distinct.enter_errors (h : Distinct group) (hnew : group.site.id ∉ T.entered) :
    (T.enter group).2 = group.defs.filterMap T.nameClash? ++
      (ownedConstructors (enteredDefs T group)).flatMap fun c =>
        ((withNames T group).enterConstructor group.site.id c.1 c.2).2 := by
  let start : TypeTable := { T with entered := group.site.id :: T.entered }
  obtain ⟨hnamed, hdefs⟩ := enterNames_eq group.site.id group.defs start
  have hrun : (T.enter group).2 = (enterNames group.site.id group.defs start).2.2 ++
      (enterConstructors group.site.id
        (ownedConstructors (enterNames group.site.id group.defs start).2.1)
        (enterNames group.site.id group.defs start).1).2 := by
    rw [TypeTable.enter, if_neg fun hmem => hnew (List.contains_iff_mem.mp hmem)]
  rw [hrun, enterNames_errors h.types, hnamed, hdefs]
  exact congrArg (_ ++ ·) (enterConstructors_errors (h.owned_nodup T) _ _)

lemma enter_errors_perm (h : Distinct group) (horder : group'.defs.Perm group.defs)
    (hid : group'.site.id = group.site.id) (hnew : group.site.id ∉ T.entered) :
    (T.enter group').2.Perm (T.enter group).2 := by
  have htypes : (withNames T group').types.Perm (withNames T group).types := by
    unfold withNames
    rw [hid]
    exact ((enteredDefs_perm h horder).map _).append_left T.types
  have hnames : ∀ name, (withNames T group').contains name = (withNames T group).contains name := by
    intro name
    rw [Bool.eq_iff_iff, contains_iff_mem, contains_iff_mem, (htypes.map _).mem_iff]
  rw [h.enter_errors hnew, (h.perm horder).enter_errors (hid ▸ hnew)]
  refine (horder.filterMap _).append ?_
  refine ((enteredDefs_perm h horder).flatMap_right _).flatMap fun c _ => ?_
  rw [hid]
  exact .of_eq (enterConstructor_errors_congr hnames rfl _ _)

end

/-- The order of the definitions of a group does not matter. If the number of the group is new and
no two of its types and no two of its constructors have the same name, then the group with its
definitions in another order has the same errors, in some order, and every question about the
table that it leaves behind has the same answer. -/
theorem enter_any_order (T : TypeTable) (group : TypeGroup) (defs : List TypeDef)
    (hnew : group.site.id ∉ T.entered) (hdistinct : Distinct group)
    (horder : defs.Perm group.defs) :
    ((T.enter { group with defs }).2 = [] ↔ (T.enter group).2 = []) ∧
      (T.enter { group with defs }).2.Perm (T.enter group).2 ∧
      SameAnswers (T.enter { group with defs }).1 (T.enter group).1 := by
  have herrors : (T.enter { group with defs }).2.Perm (T.enter group).2 :=
    enter_errors_perm hdistinct horder rfl hnew
  refine ⟨?_, herrors, enter_sameAnswers hdistinct horder rfl hnew⟩
  rw [← List.length_eq_zero_iff, ← List.length_eq_zero_iff, herrors.length_eq]

/-- `type t = A | B`, and then `type v = A of v | K of t and t = C and w = D of v | E of u`, in
which `t` and `A` are taken and `u` is not known. -/
def clashingPair : TypeGroup × TypeGroup :=
  let constructor (name : String) (args : List String) : ConstructorDef :=
    ⟨default, name, args.map .user⟩
  (⟨⟨0, default⟩, [⟨default, "t", [constructor "A" [], constructor "B" []]⟩]⟩,
   ⟨⟨1, default⟩, [⟨default, "v", [constructor "A" ["v"], constructor "K" ["t"]]⟩,
     ⟨default, "t", [constructor "C" []]⟩,
     ⟨default, "w", [constructor "D" ["v"], constructor "E" ["u"]]⟩]⟩)

theorem enter_any_order_clashingPair :
    let T := (TypeTable.initial.enter clashingPair.1).1
    let group := clashingPair.2
    let turned : TypeGroup := { group with defs := group.defs.reverse }
    group.site.id ∉ T.entered ∧ Distinct group ∧ turned.defs.Perm group.defs ∧
      (T.enter group).2.map TypeError.cause =
        [.redefinedType "t" default, .redefinedConstructor "A" default, .undefinedType "u"] ∧
      ((T.enter turned).2 = [] ↔ (T.enter group).2 = []) ∧
      (T.enter turned).2.Perm (T.enter group).2 ∧
      SameAnswers (T.enter turned).1 (T.enter group).1 := by
  intro T group turned
  have hnew : group.site.id ∉ T.entered := by decide
  have hdistinct : Distinct group := ⟨by decide, by decide⟩
  have horder : turned.defs.Perm group.defs := List.reverse_perm _
  exact ⟨hnew, hdistinct, horder, by decide,
    enter_any_order T group group.defs.reverse hnew hdistinct horder⟩

end Llama.Proofs
