import Llama.Proofs.TableRepresentation

/-!
# The validity of types

A type is valid if it is nowhere put together as types may not be and all names in it are known. The
check of a type finds this out and reports the first place that is at fault, in the order in which
a type comes before its components and the source of a function before its target. Which names are
known depends on the groups that were entered: a name belongs to the first of them that defines it.
-/

namespace Llama.Proofs

open TypeTable

variable {ty : Ty} {cause : InvalidType} {tys : List Ty}

section

variable (known : String → Prop)

/-- The types that may be written where the given names are known. -/
inductive Admissible : Ty → Prop
  | builtin {ty : Ty} : ty ∈ Ty.builtins → Admissible ty
  | array {element : Ty} {dims : Nat} :
      element.isArray = false → Admissible element → Admissible (.array element dims)
  | func {source target : Ty} :
      target.isArray = false → Admissible source → Admissible target →
      Admissible (.func source target)
  | ref {inner : Ty} : inner.isArray = false → Admissible inner → Admissible (.ref inner)
  | user {name : String} : known name → Admissible (.user name)

/-- What is wrong with a type itself, whatever may be wrong with its components. -/
inductive Violates : Ty → InvalidType → Prop
  | arrayOfArray (element : Ty) (dims dims' : Nat) :
      Violates (.array (.array element dims) dims') .arrayOfArray
  | arrayReturn (source element : Ty) (dims : Nat) :
      Violates (.func source (.array element dims)) .arrayReturn
  | refOfArray (element : Ty) (dims : Nat) : Violates (.ref (.array element dims)) .refOfArray
  | undefinedType (name : String) : ¬known name → Violates (.user name) (.undefinedType name)

/-- The first thing that is wrong with one of some types. -/
inductive FirstViolation : List Ty → InvalidType → Prop
  | here {ty : Ty} {rest : List Ty} {cause : InvalidType} :
      Violates known ty cause → FirstViolation (ty :: rest) cause
  | later {ty : Ty} {rest : List Ty} {cause : InvalidType} :
      (∀ c, ¬Violates known ty c) → FirstViolation rest cause → FirstViolation (ty :: rest) cause

end

/-- A type and its components at every depth, in pre-order. -/
def components : Ty → List Ty
  | .array element dims => .array element dims :: components element
  | .func source target => .func source target :: (components source ++ components target)
  | .ref inner => .ref inner :: components inner
  | ty => [ty]

/-- The answer accepts exactly an admissible type, and otherwise it is the first violation. -/
structure Judges (known : String → Prop) (ty : Ty) (answer : Except InvalidType Unit) : Prop where
  accepts : answer = .ok () ↔ Admissible known ty
  refuses : ∀ cause, answer = .error cause ↔ FirstViolation known (components ty) cause

variable {known : String → Prop}

lemma Violates.unique {cause' : InvalidType} (h : Violates known ty cause)
    (h' : Violates known ty cause') : cause = cause' := by
  cases h <;> cases h' <;> rfl

lemma FirstViolation.unique {cause' : InvalidType} (h : FirstViolation known tys cause)
    (h' : FirstViolation known tys cause') : cause = cause' := by
  induction h with
  | here hviolates =>
    cases h' with
    | here hviolates' => exact hviolates.unique hviolates'
    | later hsound _ => exact (hsound _ hviolates).elim
  | later hsound _ ih =>
    cases h' with
    | here hviolates' => exact (hsound _ hviolates').elim
    | later _ hrest' => exact ih hrest'

lemma FirstViolation.exists_violates (h : FirstViolation known tys cause) :
    ∃ ty ∈ tys, Violates known ty cause := by
  induction h with
  | here hviolates => exact ⟨_, List.mem_cons_self, hviolates⟩
  | later _ _ ih =>
    obtain ⟨ty, hty, hviolates⟩ := ih
    exact ⟨ty, List.mem_cons_of_mem _ hty, hviolates⟩

lemma FirstViolation.append_left (h : FirstViolation known tys cause) (tys' : List Ty) :
    FirstViolation known (tys ++ tys') cause := by
  induction h with
  | here hviolates => exact .here hviolates
  | later hsound _ ih => exact .later hsound ih

lemma FirstViolation.append_right {tys' : List Ty} (hsound : ∀ ty ∈ tys, ∀ c, ¬Violates known ty c)
    (h : FirstViolation known tys' cause) : FirstViolation known (tys ++ tys') cause := by
  induction tys with
  | nil => exact h
  | cons ty tys ih =>
    obtain ⟨hfirst, hrest⟩ := List.forall_mem_cons.mp hsound
    exact .later hfirst (ih hrest)

lemma exists_of_isArray (h : ty.isArray = true) : ∃ element dims, ty = .array element dims := by
  cases ty with
  | array element dims => exact ⟨element, dims, rfl⟩
  | _ => cases h

lemma not_violates_array {element : Ty} (h : element.isArray = false) (dims : Nat)
    (cause : InvalidType) : ¬Violates known (.array element dims) cause := by
  rintro ⟨⟩
  cases h

lemma not_violates_func (source : Ty) {target : Ty} (h : target.isArray = false)
    (cause : InvalidType) : ¬Violates known (.func source target) cause := by
  rintro ⟨⟩
  cases h

lemma not_violates_ref {inner : Ty} (h : inner.isArray = false) (cause : InvalidType) :
    ¬Violates known (.ref inner) cause := by
  rintro ⟨⟩
  cases h

/-- Nothing is wrong with an admissible type at any depth. -/
lemma Admissible.sound (h : Admissible known ty) :
    ∀ part ∈ components ty, ∀ cause, ¬Violates known part cause := by
  induction h with
  | @builtin ty hty =>
    intro part hpart cause hviolates
    simp only [Ty.builtins, List.mem_cons, List.not_mem_nil, or_false] at hty
    rcases hty with rfl | rfl | rfl | rfl | rfl | rfl <;>
      cases List.mem_singleton.mp hpart <;> cases hviolates
  | array hshape _ ih =>
    exact List.forall_mem_cons.mpr ⟨not_violates_array hshape _, ih⟩
  | func hshape _ _ ihs iht =>
    exact List.forall_mem_cons.mpr
      ⟨not_violates_func _ hshape, List.forall_mem_append.mpr ⟨ihs, iht⟩⟩
  | ref hshape _ ih => exact List.forall_mem_cons.mpr ⟨not_violates_ref hshape, ih⟩
  | user hknown =>
    intro part hpart cause hviolates
    cases List.mem_singleton.mp hpart
    cases hviolates with
    | undefinedType _ hunknown => exact hunknown hknown

/-- The names that a check takes to be known. -/
def Recognizes (T : TypeTable) (defined : TypeInfo → Bool) (name : String) : Prop :=
  ∃ info, T.lookup? name = some info ∧ defined info = true

lemma check_cases (T : TypeTable) (defined : TypeInfo → Bool) (ty : Ty) :
    T.check defined ty = .ok () ∧ Admissible (Recognizes T defined) ty ∨
      ∃ cause, T.check defined ty = .error cause ∧
        FirstViolation (Recognizes T defined) (components ty) cause := by
  induction ty with
  | array element dims ih =>
    rw [check]
    cases hshape : element.isArray with
    | true =>
      obtain ⟨inner, dims', rfl⟩ := exists_of_isArray hshape
      exact .inr ⟨_, rfl, .here (.arrayOfArray inner dims' dims)⟩
    | false =>
      rw [if_neg Bool.false_ne_true]
      rcases ih with ⟨hok, hadmissible⟩ | ⟨cause, herror, hfirst⟩
      · exact .inl ⟨hok, .array hshape hadmissible⟩
      · exact .inr ⟨cause, herror, .later (not_violates_array hshape dims) hfirst⟩
  | func source target ihs iht =>
    rw [check]
    cases hshape : target.isArray with
    | true =>
      obtain ⟨element, dims, rfl⟩ := exists_of_isArray hshape
      exact .inr ⟨_, rfl, .here (.arrayReturn source element dims)⟩
    | false =>
      rw [if_neg Bool.false_ne_true]
      rcases ihs with ⟨hok, hsource⟩ | ⟨cause, herror, hfirst⟩
      · rw [hok]
        rcases iht with ⟨hok', htarget⟩ | ⟨cause, herror, hfirst⟩
        · exact .inl ⟨hok', .func hshape hsource htarget⟩
        · exact .inr ⟨cause, herror, .later (not_violates_func source hshape)
            (.append_right hsource.sound hfirst)⟩
      · rw [herror]
        exact .inr ⟨cause, rfl, .later (not_violates_func source hshape) (hfirst.append_left _)⟩
  | ref inner ih =>
    rw [check]
    cases hshape : inner.isArray with
    | true =>
      obtain ⟨element, dims, rfl⟩ := exists_of_isArray hshape
      exact .inr ⟨_, rfl, .here (.refOfArray element dims)⟩
    | false =>
      rw [if_neg Bool.false_ne_true]
      rcases ih with ⟨hok, hadmissible⟩ | ⟨cause, herror, hfirst⟩
      · exact .inl ⟨hok, .ref hshape hadmissible⟩
      · exact .inr ⟨cause, herror, .later (not_violates_ref hshape) hfirst⟩
  | user name =>
    rw [check]
    cases hfound : T.lookup? name with
    | none =>
      refine .inr ⟨_, rfl, .here (.undefinedType name ?_)⟩
      rintro ⟨info, hinfo, -⟩
      rw [hfound] at hinfo
      cases hinfo
    | some info =>
      by_cases hdefined : defined info = true
      · exact .inl ⟨if_pos hdefined, .user ⟨info, hfound, hdefined⟩⟩
      · refine .inr ⟨_, if_neg hdefined, .here (.undefinedType name ?_)⟩
        rintro ⟨info', hinfo', hdefined'⟩
        cases hfound.symm.trans hinfo'
        exact hdefined hdefined'
  | _ => exact .inl ⟨rfl, .builtin (by decide)⟩

lemma judges_check (T : TypeTable) (defined : TypeInfo → Bool) (ty : Ty) :
    Judges (Recognizes T defined) ty (T.check defined ty) := by
  rcases check_cases T defined ty with ⟨hok, hadmissible⟩ | ⟨cause, herror, hfirst⟩
  · rw [hok]
    refine ⟨iff_of_true rfl hadmissible, fun cause => iff_of_false (by rintro ⟨⟩) fun hfirst => ?_⟩
    obtain ⟨part, hpart, hviolates⟩ := hfirst.exists_violates
    exact hadmissible.sound part hpart cause hviolates
  · rw [herror]
    refine ⟨iff_of_false (by rintro ⟨⟩) fun hadmissible => ?_,
      fun cause' => ⟨?_, fun hfirst' => ?_⟩⟩
    · obtain ⟨part, hpart, hviolates⟩ := hfirst.exists_violates
      exact hadmissible.sound part hpart cause hviolates
    · rintro ⟨⟩
      exact hfirst
    · rw [hfirst.unique hfirst']

/-- The group that a name belongs to: the first one that defines it, where groups whose number has
come up before do not count. -/
def registrar? (history : List TypeGroup) (name : String) : Option TypeGroup :=
  (history.eraseDupsBy fun g g' => g.site.id == g'.site.id).find? fun g =>
    (g.defs.map TypeDef.name).contains name

/-- The name is built in or belongs to a group whose number is allowed. -/
def KnownBy (history : List TypeGroup) (allowed : NodeId → Prop) (name : String) : Prop :=
  (Ty.builtin? name).isSome = true ∨
    ∃ group, registrar? history name = some group ∧ allowed group.site.id

lemma lookup?_initial_group (name : String) :
    (TypeTable.initial.lookup? name).map TypeInfo.group =
      (Ty.builtin? name).map fun _ => none := by
  unfold TypeTable.lookup? TypeTable.initial Ty.builtin?
  rw [List.find?_filterMap]
  have hname : (fun ty : Ty => (ty.name?.map fun n => TypeInfo.mk n none none []).any
      fun info => info.name == name) = fun ty => ty.name? == some name := by
    funext ty
    cases ty.name? <;> rfl
  rw [hname]
  cases hfound : Ty.builtins.find? fun ty => ty.name? == some name with
  | none => rfl
  | some ty =>
    have hty : ty.name? = some name := by simpa using List.find?_some hfound
    simp [hty]

lemma lookup?_enter_group {T : TypeTable} {group : TypeGroup} (h : group.site.id ∉ T.entered)
    (name : String) :
    ((T.enter group).1.lookup? name).map TypeInfo.group =
      ((T.lookup? name).map TypeInfo.group).or
        (if (group.defs.map TypeDef.name).contains name then some (some group.site.id)
          else none) := by
  cases hknown : T.lookup? name with
  | some info =>
    rw [(keeps_enter T group).type name info hknown]
    rfl
  | none =>
    rw [enter_eq h, TypeTable.lookup?, List.find?_append, ← TypeTable.lookup?, hknown,
      Option.none_or, Option.map_none, Option.none_or, List.find?_map, Option.map_map]
    have hfirst : (enteredDefs T group).find? (fun d => d.name == name) =
        group.defs.find? fun d => d.name == name := find?_newcomers (lookup?_eq_none_iff.mp hknown)
    refine (congrArg (Option.map _) hfirst).trans ?_
    by_cases hdefines : ∃ d ∈ group.defs, d.name = name
    · obtain ⟨d, hd⟩ := Option.isSome_iff_exists.mp
        (List.find?_isSome (p := fun d : TypeDef => d.name == name).mpr (by simpa using hdefines))
      rw [hd, if_pos (by simpa using hdefines)]
      rfl
    · have hnone : (group.defs.find? fun d => d.name == name) = none :=
        List.find?_eq_none.mpr fun d hd hname => hdefines ⟨d, hd, eq_of_beq hname⟩
      rw [hnone, if_neg (by simpa using hdefines)]
      rfl

lemma lookup?_enterAll_group (T : TypeTable) (history : List TypeGroup) (name : String) :
    ((enterAll T history).1.lookup? name).map TypeInfo.group =
      ((T.lookup? name).map TypeInfo.group).or
        ((registrar? (history.filter fun g => g.site.id ∉ T.entered) name).map fun g =>
          some g.site.id) := by
  induction history generalizing T with
  | nil => exact Option.or_none.symm
  | cons group rest ih =>
    have hrun : (enterAll T (group :: rest)).1 = (enterAll (T.enter group).1 rest).1 := rfl
    rw [hrun, ih]
    by_cases hentered : group.site.id ∈ T.entered
    · rw [enter_of_entered hentered, List.filter_cons_of_neg (by simpa using hentered)]
    · have hlater : (rest.filter fun g => g.site.id ∉ (T.enter group).1.entered) =
          (rest.filter fun g => g.site.id ∉ T.entered).filter fun g =>
            (g.site.id == group.site.id) == false := by
        rw [enter_eq hentered, List.filter_filter]
        refine List.filter_congr fun g _ => ?_
        by_cases hid : g.site.id = group.site.id <;> simp [hid]
      rw [lookup?_enter_group hentered, List.filter_cons_of_pos (by simpa using hentered), hlater,
        Option.or_assoc, registrar?, registrar?, List.eraseDupsBy_cons, List.find?_cons]
      cases (group.defs.map TypeDef.name).contains name <;> rfl

/-- A check after any number of groups goes by the names that these groups register. -/
lemma recognizes_enterAll (history : List TypeGroup) (defined : TypeInfo → Bool)
    {allowed : NodeId → Prop}
    (h : ∀ info, defined info = true ↔ ∀ id ∈ info.group, allowed id) :
    Recognizes (enterAll TypeTable.initial history).1 defined = KnownBy history allowed := by
  funext name
  have hgroup := lookup?_enterAll_group TypeTable.initial history name
  have hall : (history.filter fun g => g.site.id ∉ TypeTable.initial.entered) = history :=
    List.filter_eq_self.mpr fun g _ => by simp [TypeTable.initial]
  rw [lookup?_initial_group, hall] at hgroup
  rw [Recognizes, KnownBy, eq_iff_iff]
  simp only [h]
  cases hbuiltin : Ty.builtin? name with
  | some ty =>
    rw [hbuiltin] at hgroup
    obtain ⟨info, hfound, hnone⟩ := Option.map_eq_some_iff.mp hgroup
    refine iff_of_true ⟨info, hfound, fun id hid => ?_⟩ (.inl rfl)
    rw [hnone] at hid
    cases hid
  | none =>
    rw [hbuiltin, Option.map_none, Option.none_or] at hgroup
    cases hregistrar : registrar? history name with
    | some group =>
      rw [hregistrar] at hgroup
      obtain ⟨info, hfound, hid⟩ := Option.map_eq_some_iff.mp hgroup
      constructor
      · rintro ⟨info', hfound', hallowed⟩
        cases hfound.symm.trans hfound'
        exact .inr ⟨group, rfl, hallowed _ hid⟩
      · rintro (hsome | ⟨group', hgroup', hallowed⟩)
        · cases hsome
        · cases hgroup'
          refine ⟨info, hfound, fun id hmem => ?_⟩
          cases hid.symm.trans hmem
          exact hallowed
    | none =>
      rw [hregistrar] at hgroup
      refine iff_of_false ?_ ?_
      · rintro ⟨info, hfound, -⟩
        rw [hfound] at hgroup
        cases hgroup
      · rintro (hsome | ⟨group, hgroup, -⟩)
        · cases hsome
        · cases hgroup

/-- After any number of groups, whatever their numbers and names, the check of a type within some
groups accepts exactly the types that may be written where the built-in names and those of the given
groups are known, and otherwise reports the first violation. The check without such groups does the
same with every name that was registered. -/
theorem validity_judged (history : List TypeGroup) (ty : Ty) :
    let T := (enterAll TypeTable.initial history).1
    (∀ groups : List NodeId,
      Judges (KnownBy history (· ∈ groups)) ty (T.validateWithin ty groups)) ∧
    Judges (KnownBy history fun _ => True) ty (T.validate ty) := by
  intro T
  refine ⟨fun groups => ?_, ?_⟩
  · have hdefined : ∀ info, definedWithin groups info = true ↔ ∀ id ∈ info.group, id ∈ groups := by
      intro info
      unfold definedWithin
      cases info.group <;> simp
    rw [← recognizes_enterAll history (definedWithin groups) hdefined]
    exact judges_check T (definedWithin groups) ty
  · rw [← recognizes_enterAll history (fun _ => true) (by simp)]
    exact judges_check T (fun _ => true) ty

end Llama.Proofs
