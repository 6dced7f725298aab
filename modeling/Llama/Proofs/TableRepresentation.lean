import Llama.Proofs.TypeEntries

/-!
# What a type table holds

However groups of type definitions clash, with each other, within themselves or with the built-in
types, the table that they leave behind is a map from names to entries in which types and
constructors agree with each other. The reason is a closed form of entering a group: the group
only appends, and it appends those definitions whose names are not taken.
-/

namespace Llama.Proofs

open TypeTable

variable {T : TypeTable} {name : String} {group : TypeGroup}

section

variable {α : Type} (name : α → String)

/-- Those whose name is neither taken from the start nor by an earlier one of them. -/
def newcomers : List String → List α → List α
  | _, [] => []
  | taken, a :: rest =>
    if name a ∈ taken then newcomers taken rest
    else a :: newcomers (taken ++ [name a]) rest

variable {name} {taken : List String} {l : List α}

lemma newcomers_sublist : (newcomers name taken l).Sublist l := by
  induction l generalizing taken with
  | nil => exact List.Sublist.refl _
  | cons a l ih =>
    unfold newcomers
    split
    · exact ih.cons a
    · exact ih.cons_cons a

lemma newcomers_notMem {a : α} (h : a ∈ newcomers name taken l) : name a ∉ taken := by
  induction l generalizing taken with
  | nil => cases h
  | cons b l ih =>
    unfold newcomers at h
    split at h
    · exact ih h
    · next hb =>
      rcases List.mem_cons.mp h with rfl | h
      · exact hb
      · exact fun hmem => ih h (List.mem_append_left _ hmem)

lemma newcomers_nodup : ((newcomers name taken l).map name).Nodup := by
  induction l generalizing taken with
  | nil => exact List.nodup_nil
  | cons a l ih =>
    unfold newcomers
    split
    · exact ih
    · refine List.nodup_cons.mpr ⟨fun hmem => ?_, ih⟩
      obtain ⟨b, hb, hname⟩ := List.mem_map.mp hmem
      exact newcomers_notMem hb (by simp [hname])

lemma nodup_append_newcomers (h : taken.Nodup) :
    (taken ++ (newcomers name taken l).map name).Nodup := by
  refine List.nodup_append.mpr ⟨h, newcomers_nodup, fun n hn n' hn' heq => ?_⟩
  obtain ⟨a, ha, rfl⟩ := List.mem_map.mp hn'
  exact newcomers_notMem ha (heq ▸ hn)

/-- Every name ends up taken. -/
lemma mem_taken_or_newcomers (name : α → String) {a : α} (h : a ∈ l) :
    name a ∈ taken ∨ name a ∈ (newcomers name taken l).map name := by
  induction l generalizing taken with
  | nil => cases h
  | cons b l ih =>
    unfold newcomers
    rcases List.mem_cons.mp h with rfl | h
    · split
      · next hb => exact .inl hb
      · exact .inr List.mem_cons_self
    · split
      · exact ih h
      · have hlater : name a ∈ taken ++ [name b] ∨
            name a ∈ (newcomers name (taken ++ [name b]) l).map name := ih h
        rcases hlater with hmem | hmem
        · rcases List.mem_append.mp hmem with hmem | hmem
          · exact .inl hmem
          · exact .inr (List.mem_cons.mpr (.inl (List.mem_singleton.mp hmem)))
        · exact .inr (List.mem_cons_of_mem _ hmem)

/-- Of those with the same name the first is a newcomer. -/
lemma find?_newcomers {n : String} (hn : n ∉ taken) :
    (newcomers name taken l).find? (fun a => name a == n) = l.find? fun a => name a == n := by
  induction l generalizing taken with
  | nil => rfl
  | cons a l ih =>
    unfold newcomers
    by_cases ha : name a = n
    · rw [if_neg (ha ▸ hn), List.find?_cons_of_pos (by simpa using ha),
        List.find?_cons_of_pos (by simpa using ha)]
    · rw [List.find?_cons_of_neg (by simpa using ha)]
      split
      · exact ih hn
      · rw [List.find?_cons_of_neg (by simpa using ha)]
        exact ih (by simpa [hn] using fun h => ha h.symm)

/-- The newcomers that satisfy a test stand in the order in which the names of all that satisfy it
come up. The names in `seen`, which are taken, may be left out. -/
lemma names_filter_newcomers_sublist (p : α → Bool) {seen : List String}
    (hseen : ∀ n ∈ seen, n ∈ taken) :
    (((newcomers name taken l).filter p).map name).Sublist
      (((l.filter p).map name).filter (· ∉ seen)).eraseDups := by
  induction l generalizing taken seen with
  | nil => exact List.Sublist.refl _
  | cons a l ih =>
    unfold newcomers
    cases hp : p a with
    | false =>
      rw [List.filter_cons_of_neg (a := a) (l := l) (by simp [hp])]
      split
      · exact ih hseen
      · rw [List.filter_cons_of_neg (by simp [hp])]
        exact ih fun n hn => List.mem_append_left _ (hseen n hn)
    | true =>
      rw [List.filter_cons_of_pos (l := l) hp, List.map_cons]
      by_cases ha : name a ∈ seen
      · rw [if_pos (hseen _ ha), List.filter_cons_of_neg (by simpa using ha)]
        exact ih hseen
      · have hrest : (((l.filter p).map name).filter (· ∉ seen)).filter (fun n => !n == name a) =
            ((l.filter p).map name).filter (· ∉ name a :: seen) := by
          rw [List.filter_filter]
          refine List.filter_congr fun n _ => ?_
          by_cases hn : n = name a <;> simp [hn]
        rw [List.filter_cons_of_pos (by simpa using ha), List.eraseDups_cons, hrest]
        split
        · next htaken => exact (ih (List.forall_mem_cons.mpr ⟨htaken, hseen⟩)).cons _
        · rw [List.filter_cons_of_pos hp, List.map_cons]
          refine (ih (List.forall_mem_cons.mpr ⟨by simp, fun n hn => ?_⟩)).cons_cons _
          exact List.mem_append_left _ (hseen n hn)

end

/-- The definitions of a group that are entered in a table. -/
def enteredDefs (T : TypeTable) (group : TypeGroup) : List TypeDef :=
  newcomers TypeDef.name (T.types.map TypeInfo.name) group.defs

/-- The constructors of a group that are entered in a table, with their owners. -/
def enteredConstructors (T : TypeTable) (group : TypeGroup) : List (String × ConstructorDef) :=
  newcomers (fun c => c.2.name) (T.constructors.map ConstructorInfo.name)
    (ownedConstructors (enteredDefs T group))

/-- Adds those constructors to the list of a type that it owns. -/
def listAll (cs : List (String × ConstructorDef)) (info : TypeInfo) : TypeInfo :=
  { info with
    constructors := info.constructors ++
      (cs.filter fun c => c.1 == info.name).map fun c => c.2.name }

/-- The entry of a type definition before its constructors are entered. -/
def typeEntry (group : NodeId) (d : TypeDef) : TypeInfo :=
  ⟨d.name, some d.site, some group, []⟩

def constructorEntry (group : NodeId) (c : String × ConstructorDef) : ConstructorInfo :=
  ⟨c.2.name, c.1, c.2.args, c.2.site, group⟩

lemma lookup?_eq_none_iff : T.lookup? name = none ↔ name ∉ T.types.map TypeInfo.name := by
  simp [TypeTable.lookup?]

lemma constructor?_eq_none_iff :
    T.constructor? name = none ↔ name ∉ T.constructors.map ConstructorInfo.name := by
  simp [TypeTable.constructor?]

lemma enterNames_eq (group : NodeId) (defs : List TypeDef) (T : TypeTable) :
    (enterNames group defs T).1 =
        { T with
          types := T.types ++
            (newcomers TypeDef.name (T.types.map TypeInfo.name) defs).map (typeEntry group) } ∧
      (enterNames group defs T).2.1 =
        newcomers TypeDef.name (T.types.map TypeInfo.name) defs := by
  induction defs generalizing T with
  | nil => simp [enterNames, newcomers]
  | cons d defs ih =>
    unfold enterNames newcomers
    cases hclash : T.nameClash? d with
    | some e =>
      have htaken : d.name ∈ T.types.map TypeInfo.name := by
        by_contra hfree
        rw [nameClash?, lookup?_eq_none_iff.mpr hfree] at hclash
        cases hclash
      rw [if_pos htaken]
      exact ih T
    | none =>
      have hfree : d.name ∉ T.types.map TypeInfo.name :=
        lookup?_eq_none_iff.mp (Option.map_eq_none_iff.mp hclash)
      have hnames : (T.addType group d).types.map TypeInfo.name =
          T.types.map TypeInfo.name ++ [d.name] := by simp [addType]
      obtain ⟨htable, hdefs⟩ := ih (T.addType group d)
      rw [hnames] at htable hdefs
      rw [if_neg hfree]
      refine ⟨htable.trans ?_, congrArg (d :: ·) hdefs⟩
      simp [addType, typeEntry]

lemma listAll_listUnder (owner : String) (c : ConstructorDef)
    (cs : List (String × ConstructorDef)) (info : TypeInfo) :
    listAll cs (listUnder owner c.name info) = listAll ((owner, c) :: cs) info := by
  by_cases hname : info.name = owner
  · simp [listAll, listUnder, hname]
  · have hother : ¬owner = info.name := fun h => hname h.symm
    simp [listAll, listUnder, hname, hother]

lemma enterConstructors_eq (group : NodeId) (cs : List (String × ConstructorDef))
    (T : TypeTable) :
    (enterConstructors group cs T).1 =
      let news := newcomers (fun c : String × ConstructorDef => c.2.name)
        (T.constructors.map ConstructorInfo.name) cs
      { T with
        types := T.types.map (listAll news)
        constructors := T.constructors ++ news.map (constructorEntry group) } := by
  induction cs generalizing T with
  | nil =>
    have hsame : listAll [] = id := by
      funext info
      simp [listAll]
    simp [enterConstructors, newcomers, hsame]
  | cons c cs ih =>
    obtain ⟨owner, c⟩ := c
    have hrun : (enterConstructors group ((owner, c) :: cs) T).1 =
        (enterConstructors group cs (T.enterConstructor group owner c).1).1 := rfl
    rw [hrun]
    unfold newcomers enterConstructor
    cases hc : T.constructor? c.name with
    | some previous =>
      have htaken : c.name ∈ T.constructors.map ConstructorInfo.name := by
        by_contra hfree
        rw [constructor?_eq_none_iff.mpr hfree] at hc
        cases hc
      rw [if_pos htaken]
      exact ih T
    | none =>
      have hnames : (T.addConstructor group owner c).constructors.map ConstructorInfo.name =
          T.constructors.map ConstructorInfo.name ++ [c.name] := by simp [addConstructor]
      have htable := ih (T.addConstructor group owner c)
      rw [hnames] at htable
      rw [if_neg (constructor?_eq_none_iff.mp hc)]
      refine htable.trans ?_
      simp [addConstructor, constructorEntry, listAll_listUnder]

lemma owner_mem_of_mem_owned {ds : List TypeDef} {c : String × ConstructorDef}
    (h : c ∈ ownedConstructors ds) : ∃ d ∈ ds, d.name = c.1 ∧ c.2 ∈ d.constructors := by
  obtain ⟨d, hd, hc⟩ := List.mem_flatMap.mp h
  obtain ⟨k, hk, rfl⟩ := List.mem_map.mp hc
  exact ⟨d, hd, rfl, hk⟩

/-- The owner of a constructor that is entered is a type that was not there before. -/
lemma owner_of_entered {c : String × ConstructorDef} (h : c ∈ enteredConstructors T group) :
    ∃ d ∈ enteredDefs T group, d.name = c.1 ∧ c.2 ∈ d.constructors ∧
      c.1 ∉ T.types.map TypeInfo.name := by
  obtain ⟨d, hd, hname, hc⟩ := owner_mem_of_mem_owned (newcomers_sublist.subset h)
  exact ⟨d, hd, hname, hc, hname ▸ newcomers_notMem hd⟩

/-- A type that was there owns none of the constructors that a group brings. -/
lemma filter_entered_eq_nil (group : TypeGroup) {info : TypeInfo} (hinfo : info ∈ T.types) :
    (enteredConstructors T group).filter (fun c => c.1 == info.name) = [] := by
  refine List.filter_eq_nil_iff.mpr fun c hc hname => ?_
  obtain ⟨-, -, -, -, hnew⟩ := owner_of_entered hc
  exact hnew (eq_of_beq hname ▸ List.mem_map_of_mem hinfo)

/-- What a group brings is appended, and nothing else changes. -/
lemma enter_eq (h : group.site.id ∉ T.entered) :
    (T.enter group).1 =
      ⟨T.types ++ (enteredDefs T group).map fun d =>
          listAll (enteredConstructors T group) (typeEntry group.site.id d),
        T.constructors ++ (enteredConstructors T group).map (constructorEntry group.site.id),
        group.site.id :: T.entered⟩ := by
  let start : TypeTable := { T with entered := group.site.id :: T.entered }
  obtain ⟨hnames, hdefs⟩ := enterNames_eq group.site.id group.defs start
  have hrun : (T.enter group).1 = (enterConstructors group.site.id
      (ownedConstructors (enterNames group.site.id group.defs start).2.1)
      (enterNames group.site.id group.defs start).1).1 := by
    rw [TypeTable.enter, if_neg fun hmem => h (List.contains_iff_mem.mp hmem)]
  have hold : T.types.map (listAll (enteredConstructors T group)) = T.types := by
    refine (List.map_congr_left fun info hinfo => ?_).trans (List.map_id _)
    simp [listAll, filter_entered_eq_nil group hinfo]
  rw [hrun, enterConstructors_eq, hnames, hdefs]
  simp only [List.map_append, List.map_map]
  exact congrArg (fun types => TypeTable.mk (types ++ _) _ _) hold

/-- The entries of a table that groups have left behind. No name comes twice, the built-in types
are as they were, every other type comes from a definition, and types list exactly the
constructors that they own. -/
structure Tabulates (groups : List TypeGroup) (T : TypeTable) : Prop where
  typeNames : (T.types.map TypeInfo.name).Nodup
  constructorNames : (T.constructors.map ConstructorInfo.name).Nodup
  builtin : ∀ ty ∈ Ty.builtins, ∀ name ∈ ty.name?, ⟨name, none, none, []⟩ ∈ T.types
  /-- The constructors of a type stand in the order in which its definition first names them. -/
  declared : ∀ info ∈ T.types, info.isBuiltin = false → ∃ group ∈ groups, ∃ d ∈ group.defs,
    info.name = d.name ∧ info.definition = some d.site ∧ info.group = some group.site.id ∧
      info.constructors.Sublist (d.constructors.map ConstructorDef.name).eraseDups
  listed : ∀ info ∈ T.types, info.constructors =
    (T.constructors.filter fun c => c.owner == info.name).map ConstructorInfo.name
  owned : ∀ c ∈ T.constructors, ∃ info ∈ T.types, info.name = c.owner ∧
    info.isBuiltin = false ∧ info.group = some c.group

lemma tabulates_initial : Tabulates [] TypeTable.initial where
  typeNames := by decide
  constructorNames := List.nodup_nil
  builtin := by decide
  declared := by decide
  listed := by decide
  owned := nofun

lemma owned_filter {ds : List TypeDef} (hnames : (ds.map TypeDef.name).Nodup) {d : TypeDef}
    (hd : d ∈ ds) :
    (ownedConstructors ds).filter (fun c => c.1 == d.name) =
      d.constructors.map fun c => (d.name, c) := by
  induction ds with
  | nil => cases hd
  | cons d' ds ih =>
    obtain ⟨hnew, hnames⟩ := List.nodup_cons.mp hnames
    have hcons : ownedConstructors (d' :: ds) =
        (d'.constructors.map fun c => (d'.name, c)) ++ ownedConstructors ds := List.flatMap_cons
    rw [hcons, List.filter_append]
    rcases List.mem_cons.mp hd with rfl | hd
    · have hothers : (ownedConstructors ds).filter (fun c => c.1 == d.name) = [] := by
        refine List.filter_eq_nil_iff.mpr fun c hc hname => ?_
        obtain ⟨d', hd', hname', -⟩ := owner_mem_of_mem_owned hc
        exact hnew (List.mem_map.mpr ⟨d', hd', hname'.trans (eq_of_beq hname)⟩)
      simp [hothers]
    · have hother : ¬d'.name = d.name := fun h => hnew (h ▸ List.mem_map_of_mem hd)
      simp [hother, ih hnames hd]

/-- The constructors that are entered for a type stand in the order of its definition. -/
lemma names_entered_sublist {d : TypeDef} (hd : d ∈ enteredDefs T group) :
    (((enteredConstructors T group).filter fun c => c.1 == d.name).map fun c => c.2.name).Sublist
      (d.constructors.map ConstructorDef.name).eraseDups := by
  have howned : ((ownedConstructors (enteredDefs T group)).filter fun c => c.1 == d.name) =
      d.constructors.map fun c => (d.name, c) := owned_filter newcomers_nodup hd
  have hnames : (d.constructors.map fun c => (d.name, c)).map (fun c => c.2.name) =
      d.constructors.map ConstructorDef.name := List.map_map
  have hall : (d.constructors.map ConstructorDef.name).filter (· ∉ ([] : List String)) =
      d.constructors.map ConstructorDef.name := List.filter_eq_self.mpr (by simp)
  rw [← hall, ← hnames, ← howned]
  exact names_filter_newcomers_sublist _ nofun

namespace Tabulates

variable {groups : List TypeGroup} {T : TypeTable}

/-- A type that a group brings owns none of the constructors that were there. -/
lemma filter_eq_nil (h : Tabulates groups T) (hname : name ∉ T.types.map TypeInfo.name) :
    T.constructors.filter (fun c => c.owner == name) = [] := by
  refine List.filter_eq_nil_iff.mpr fun c hc howner => ?_
  obtain ⟨info, hinfo, hinfoName, -⟩ := h.owned c hc
  exact hname (List.mem_map.mpr ⟨info, hinfo, hinfoName.trans (eq_of_beq howner)⟩)

/-- A group that is entered leaves the entries in order. -/
lemma enter (h : Tabulates groups T) (group : TypeGroup) :
    Tabulates (groups ++ [group]) (T.enter group).1 := by
  have hearlier : ∀ info ∈ T.types, info.isBuiltin = false →
      ∃ g ∈ groups ++ [group], ∃ d ∈ g.defs, info.name = d.name ∧ info.definition = some d.site ∧
        info.group = some g.site.id ∧
        info.constructors.Sublist (d.constructors.map ConstructorDef.name).eraseDups := by
    intro info hinfo huser
    obtain ⟨g, hg, hrest⟩ := h.declared info hinfo huser
    exact ⟨g, List.mem_append_left _ hg, hrest⟩
  by_cases hentered : group.site.id ∈ T.entered
  · rw [enter_of_entered hentered]
    exact { h with declared := hearlier }
  have hnames : ((enteredDefs T group).map fun d => listAll (enteredConstructors T group)
      (typeEntry group.site.id d)).map TypeInfo.name = (enteredDefs T group).map TypeDef.name := by
    rw [List.map_map]
    rfl
  have hconstructorNames : ((enteredConstructors T group).map
      (constructorEntry group.site.id)).map ConstructorInfo.name =
        (enteredConstructors T group).map fun c => c.2.name := by
    rw [List.map_map]
    rfl
  rw [enter_eq hentered]
  refine ⟨?typeNames, ?constructorNames, ?builtin, ?declared, ?listed, ?owned⟩
  case typeNames =>
    rw [List.map_append, hnames]
    exact nodup_append_newcomers h.typeNames
  case constructorNames =>
    rw [List.map_append, hconstructorNames]
    exact nodup_append_newcomers h.constructorNames
  case builtin =>
    exact fun ty hty name hname => List.mem_append_left _ (h.builtin ty hty name hname)
  case declared =>
    refine List.forall_mem_append.mpr ⟨hearlier, List.forall_mem_map.mpr fun d hd _ => ?_⟩
    exact ⟨group, by simp, d, newcomers_sublist.subset hd, rfl, rfl, rfl, names_entered_sublist hd⟩
  case listed =>
    simp only [List.filter_append, List.filter_map, List.map_append, List.map_map]
    refine List.forall_mem_append.mpr ⟨fun info hinfo => ?_, List.forall_mem_map.mpr fun d hd => ?_⟩
    · have hnone : (enteredConstructors T group).filter
          ((fun c => c.owner == info.name) ∘ constructorEntry group.site.id) = [] :=
        filter_entered_eq_nil group hinfo
      rw [hnone, List.map_nil, List.append_nil]
      exact h.listed info hinfo
    · have hnone := h.filter_eq_nil (newcomers_notMem hd)
      rw [show (listAll (enteredConstructors T group) (typeEntry group.site.id d)).name = d.name
        from rfl, hnone]
      rfl
  case owned =>
    refine List.forall_mem_append.mpr ⟨fun c hc => ?_, List.forall_mem_map.mpr fun c hc => ?_⟩
    · obtain ⟨info, hinfo, hrest⟩ := h.owned c hc
      exact ⟨info, List.mem_append_left _ hinfo, hrest⟩
    · obtain ⟨d, hd, hname, -⟩ := owner_of_entered hc
      exact ⟨_, List.mem_append_right _ (List.mem_map_of_mem hd), hname, rfl, rfl⟩

end Tabulates

/-- However many groups are entered, in whatever order, the entries stay in order. -/
lemma tabulates_enterAll {groups : List TypeGroup} (h : Tabulates groups T)
    (later : List TypeGroup) : Tabulates (groups ++ later) (enterAll T later).1 := by
  induction later generalizing groups T with
  | nil =>
    rw [List.append_nil]
    exact h
  | cons group later ih =>
    have hrest := ih (h.enter group)
    rw [List.append_assoc] at hrest
    exact hrest

lemma find?_eq_some_iff_of_nodup {α : Type} {name : α → String} {l : List α}
    (h : (l.map name).Nodup) {n : String} {a : α} :
    l.find? (fun b => name b == n) = some a ↔ a ∈ l ∧ name a = n := by
  constructor
  · intro hfound
    exact ⟨List.mem_of_find?_eq_some hfound, by simpa using List.find?_some hfound⟩
  · rintro ⟨hmem, rfl⟩
    induction l with
    | nil => cases hmem
    | cons b l ih =>
      obtain ⟨hnew, hnodup⟩ := List.nodup_cons.mp h
      rcases List.mem_cons.mp hmem with rfl | hmem
      · exact List.find?_cons_of_pos (by simp)
      · have hother : ¬name b = name a := fun heq => hnew (heq ▸ List.mem_map_of_mem hmem)
        rw [List.find?_cons_of_neg (by simpa using hother)]
        exact ih hnodup hmem

/-- A table that groups have left behind is a map from names to its entries. -/
structure Represents (groups : List TypeGroup) (T : TypeTable) : Prop
    extends Tabulates groups T where
  lookup : ∀ name info, T.lookup? name = some info ↔ info ∈ T.types ∧ info.name = name
  constructor : ∀ name c, T.constructor? name = some c ↔ c ∈ T.constructors ∧ c.name = name
  nodup : ∀ info ∈ T.types, info.constructors.Nodup

lemma Tabulates.represents {groups : List TypeGroup} (h : Tabulates groups T) :
    Represents groups T := by
  refine { h with lookup := ?_, constructor := ?_, nodup := fun info hinfo => ?_ }
  · exact fun name info => find?_eq_some_iff_of_nodup h.typeNames
  · exact fun name c => find?_eq_some_iff_of_nodup h.constructorNames
  · rw [h.listed info hinfo]
    exact h.constructorNames.sublist (List.filter_sublist.map _)

/-- The second table answers as the first does about all that the first knows. -/
structure Keeps (T T' : TypeTable) : Prop where
  type : ∀ name info, T.lookup? name = some info → T'.lookup? name = some info
  constructor : ∀ name c, T.constructor? name = some c → T'.constructor? name = some c

lemma keeps_enter (T : TypeTable) (group : TypeGroup) : Keeps T (T.enter group).1 := by
  by_cases hentered : group.site.id ∈ T.entered
  · rw [enter_of_entered hentered]
    exact ⟨fun _ _ h => h, fun _ _ h => h⟩
  · rw [enter_eq hentered]
    refine ⟨fun name info h => ?_, fun name c h => ?_⟩
    · exact List.find?_append.trans (by rw [← TypeTable.lookup?, h]; rfl)
    · exact List.find?_append.trans (by rw [← TypeTable.constructor?, h]; rfl)

/-- The second table comes from the first by a group. A name that the first does not know is
defined as the group defines it first, and all constructors of that definition are known. -/
def Admits (T : TypeTable) (group : TypeGroup) (T' : TypeTable) : Prop :=
  ∀ name d, T.lookup? name = none → group.defs.find? (fun d => d.name == name) = some d →
    (∃ info, T'.lookup? name = some info ∧ info.definition = some d.site ∧
      info.group = some group.site.id) ∧
    ∀ c ∈ d.constructors, (T'.constructor? c.name).isSome = true

lemma admits_enter (h : group.site.id ∉ T.entered) : Admits T group (T.enter group).1 := by
  intro name d hnone hfirst
  have hfree := lookup?_eq_none_iff.mp hnone
  have hfound : (enteredDefs T group).find? (fun d => d.name == name) = some d :=
    (find?_newcomers hfree).trans hfirst
  rw [enter_eq h]
  refine ⟨⟨listAll (enteredConstructors T group) (typeEntry group.site.id d), ?_, rfl, rfl⟩,
    fun c hc => ?_⟩
  · refine List.find?_append.trans ?_
    rw [← TypeTable.lookup?, hnone, Option.none_or, List.find?_map]
    exact congrArg (Option.map _) hfound
  · have hmem : (d.name, c) ∈ ownedConstructors (enteredDefs T group) :=
      List.mem_flatMap.mpr ⟨d, List.mem_of_find?_eq_some hfound, List.mem_map_of_mem hc⟩
    rw [Option.isSome_iff_ne_none, Ne, constructor?_eq_none_iff, not_not, List.map_append,
      List.mem_append, List.map_map]
    exact mem_taken_or_newcomers (fun c => c.2.name) hmem

/-- Whatever groups were entered, the table is a map whose entries agree with each other, and a
further group neither removes nor alters an entry. If its number is new, it brings the names that
are not taken. -/
theorem enterAll_represents (groups : List TypeGroup) :
    let T := (enterAll TypeTable.initial groups).1
    Represents groups T ∧ ∀ group, Keeps T (T.enter group).1 ∧
      (group.site.id ∉ T.entered → Admits T group (T.enter group).1) := by
  intro T
  have h : Tabulates groups T := tabulates_enterAll tabulates_initial groups
  exact ⟨h.represents, fun group => ⟨keeps_enter T group, admits_enter⟩⟩

/-- `type t = A | B | A and t = D and int = E`, then `type u = B | C`, then a group with the number
of the first. -/
def clashingGroups : List TypeGroup :=
  let define (name : String) (constructors : List String) : TypeDef :=
    ⟨default, name, constructors.map fun c => ⟨default, c, [.user name]⟩⟩
  [⟨⟨3, default⟩, [define "t" ["A", "B", "A"], define "t" ["D"], define "int" ["E"]]⟩,
   ⟨⟨7, default⟩, [define "u" ["B", "C"]]⟩,
   ⟨⟨3, default⟩, [define "w" ["F"]]⟩]

/-- `type u = G and v = C | H` -/
def lateGroup : TypeGroup :=
  ⟨⟨9, default⟩, [⟨default, "u", [⟨default, "G", []⟩]⟩,
    ⟨default, "v", [⟨default, "C", [.int]⟩, ⟨default, "H", []⟩]⟩]⟩

theorem enterAll_represents_clashingGroups :
    let T := (enterAll TypeTable.initial clashingGroups).1
    (T.types.drop 6).map TypeInfo.constructors = [["A", "B"], ["C"]] ∧
      lateGroup.site.id ∉ T.entered ∧ Represents clashingGroups T ∧
      Keeps T (T.enter lateGroup).1 ∧ Admits T lateGroup (T.enter lateGroup).1 := by
  intro T
  have hnew : lateGroup.site.id ∉ T.entered := by decide
  obtain ⟨hrepresents, hstep⟩ := enterAll_represents clashingGroups
  exact ⟨by decide, hnew, hrepresents, (hstep lateGroup).1, (hstep lateGroup).2 hnew⟩

end Llama.Proofs
