import Llama.Proofs.ConstraintCompleteness
import Llama.Proofs.LexicalScoping
import Llama.Proofs.PostOrder

/-!
# The placeholders of an analysis

An analysis numbers its placeholders one after the other, gives one primary placeholder to every
node that has a type, and constrains no placeholder that it has not made. `Collects first i m
nodes P` says of a step `m` that is taken after inference has reached `i` that it keeps what is
collected in order and gives primary placeholders to the nodes among `nodes` that have types;
`P` is what else holds afterwards.
-/

namespace Llama.Proofs

open Analyzer

variable {α β : Type} {first tag : Tag} {i j : Inference} {node : NodeId} {m : Analyzer α}
  {n : Node} {f : α → Analyzer β} {hint : Option Ty} {env scope : Env} {ds : List Def}

/-- Whether a node has a type: expressions, patterns, parameters and definitions do. -/
def isTyped : Node → Bool
  | .expr _ | .pattern _ | .param _ | .definition _ => true
  | .letGroup _ | .clause _ | .typeGroup _ | .typeDef _ | .constructor _ => false

/-- The numbers of the nodes that have types. -/
def typedNumbers (nodes : List Node) : List NodeId := numbers (nodes.filter isTyped)

@[simp] lemma typedNumbers_append (nodes nodes' : List Node) :
    typedNumbers (nodes ++ nodes') = typedNumbers nodes ++ typedNumbers nodes' := by
  simp [typedNumbers]

lemma mem_typedNumbers {nodes : List Node} {id : NodeId} :
    id ∈ typedNumbers nodes ↔ ∃ n ∈ nodes, isTyped n = true ∧ n.site.id = id := by
  simp [typedNumbers, numbers, and_assoc]

/-- There is a placeholder with the tag. -/
def Made (i : Inference) (tag : Tag) : Prop := ∃ temp ∈ i.temps.toList, temp.tag = tag

/-- The nodes of the primary placeholders. -/
def primaries (i : Inference) : List NodeId := (i.temps.toList.filter Temp.primary).map Temp.node

/-- The tags are counted from the first one, no node has two primary placeholders, placeholders
are constrained to their hints, and only placeholders that were made are constrained. -/
structure Orderly (first : Tag) (i : Inference) : Prop where
  tags : i.temps.toList.map Temp.tag =
    (List.range i.temps.toList.length).map fun k => first + UInt32.ofNat k
  next : i.next = first + UInt32.ofNat i.temps.toList.length
  primaries : (primaries i).Nodup
  hinted : ∀ temp ∈ i.temps.toList, ∀ ty ∈ temp.hint,
    .spec temp.tag ty.toTerm ∈ i.constraints.toList
  closed : ∀ c ∈ i.constraints.toList, ∀ tag ∈ c.tags, Made i tag

lemma Made.mono (hij : Grows i j) (h : Made i tag) : Made j tag := by
  obtain ⟨temp, hmem, htag⟩ := h
  exact ⟨temp, hij.temps.subset hmem, htag⟩

lemma made_of_primary? (h : i.primary? node = some tag) : Made i tag := by
  obtain ⟨temp, hmem, -, -, htag⟩ := exists_temp_of_primary? h
  exact ⟨temp, hmem, htag⟩

lemma made_newTemp (i : Inference) (node : NodeId) (hint : Option Ty) (primary : Bool) :
    Made (i.newTemp node hint primary).2 i.next := by
  refine ⟨⟨i.next, node, hint, primary⟩, ?_, rfl⟩
  rw [newTemp_temps]
  exact List.mem_append_right _ List.mem_cons_self

lemma orderly_startingAt (first : Tag) : Orderly first (Inference.startingAt first) where
  tags := rfl
  next := (UInt32.add_zero first).symm
  primaries := List.nodup_nil
  hinted := nofun
  closed := nofun

lemma primaries_newTemp (i : Inference) (node : NodeId) (hint : Option Ty) (primary : Bool) :
    primaries (i.newTemp node hint primary).2 =
      primaries i ++ if primary then [node] else [] := by
  unfold primaries
  rw [newTemp_temps, List.filter_append, List.map_append]
  cases primary <;> rfl

lemma mem_primaries_iff : node ∈ primaries i ↔ ∃ tag, i.primary? node = some tag := by
  constructor
  · intro h
    obtain ⟨temp, hmem, rfl⟩ := List.mem_map.mp h
    obtain ⟨hmem, hprimary⟩ := List.mem_filter.mp hmem
    have hfound : (i.temps.toList.find? fun t => t.primary && t.node == temp.node).isSome := by
      rw [List.find?_isSome]
      exact ⟨temp, hmem, by simp [hprimary]⟩
    obtain ⟨found, hfound⟩ := Option.isSome_iff_exists.mp hfound
    refine ⟨found.tag, ?_⟩
    unfold Inference.primary?
    rw [← Array.find?_toList, hfound]
    rfl
  · rintro ⟨tag, h⟩
    obtain ⟨temp, hmem, hprimary, hnode, -⟩ := exists_temp_of_primary? h
    exact List.mem_map.mpr ⟨temp, List.mem_filter.mpr ⟨hmem, hprimary⟩, hnode⟩

lemma Orderly.newTemp (h : Orderly first i) (hint : Option Ty) {primary : Bool}
    (hnew : primary = true → node ∉ Proofs.primaries i) :
    Orderly first (i.newTemp node hint primary).2 := by
  have hgrows := Grows.newTemp i node hint primary
  refine ⟨?_, ?_, ?_, fun temp htemp ty hty => ?_, fun c hc tag htag => ?_⟩
  · rw [newTemp_temps, List.map_append, h.tags, List.length_append, List.length_singleton,
      List.range_succ, List.map_append, h.next]
    rfl
  · rw [newTemp_temps, List.length_append, List.length_singleton, add_ofNat_succ, ← h.next]
    rfl
  · rw [primaries_newTemp]
    cases primary with
    | false => simpa using h.primaries
    | true => simpa [List.nodup_append] using ⟨h.primaries, fun a ha hn => hnew rfl (hn ▸ ha)⟩
  · rw [newTemp_temps] at htemp
    rcases List.mem_append.mp htemp with hold | hlast
    · exact hgrows.constraints.subset (h.hinted temp hold ty hty)
    · obtain rfl := List.mem_singleton.mp hlast
      have hsome : hint = some ty := hty
      rw [newTemp_constraints, hsome]
      exact List.mem_append_right _ List.mem_cons_self
  · rw [newTemp_constraints] at hc
    rcases List.mem_append.mp hc with hold | hlast
    · exact (h.closed c hold tag htag).mono hgrows
    · obtain ⟨ty, -, rfl⟩ := Option.map_eq_some_iff.mp (Option.mem_toList.mp hlast)
      have htags : tag = i.next := by simpa [Constraint.tags, Ty.tags_toTerm] using htag
      rw [htags]
      exact made_newTemp i node hint primary

lemma Orderly.tempFor (h : Orderly first i) (node : NodeId) (hint : Option Ty) :
    Orderly first (i.tempFor node hint).2 := by
  unfold Inference.tempFor
  cases hprimary : i.primary? node with
  | some tag => exact h
  | none =>
    refine h.newTemp hint fun _ hmem => ?_
    obtain ⟨tag, htag⟩ := mem_primaries_iff.mp hmem
    rw [hprimary] at htag
    cases htag

lemma primaries_tempFor (i : Inference) (node : NodeId) (hint : Option Ty) (id : NodeId) :
    id ∈ primaries (i.tempFor node hint).2 ↔ id ∈ primaries i ∨ id = node := by
  unfold Inference.tempFor
  cases hprimary : i.primary? node with
  | some tag =>
    have hnode : node ∈ primaries i := mem_primaries_iff.mpr ⟨tag, hprimary⟩
    refine ⟨.inl, ?_⟩
    rintro (hmem | rfl)
    · exact hmem
    · exact hnode
  | none => simp [primaries_newTemp]

def Collects (first : Tag) (i : Inference) (m : Analyzer α) (nodes : List Node)
    (P : α → Inference → Prop) : Prop :=
  ∀ w, Grows i w.inference → Orderly first w.inference →
    Grows w.inference (m w).2.inference ∧ Orderly first (m w).2.inference ∧
    (∀ id, id ∈ primaries (m w).2.inference ↔
      id ∈ primaries w.inference ∨ id ∈ typedNumbers nodes) ∧
    P (m w).1 (m w).2.inference

section

variable {nodes nodes' : List Node} {P : α → Inference → Prop} {Q : β → Inference → Prop}

lemma Collects.congr (h : Collects first i m nodes P)
    (hnodes : ∀ id, id ∈ typedNumbers nodes ↔ id ∈ typedNumbers nodes') :
    Collects first i m nodes' P := by
  intro w hw horderly
  obtain ⟨hgrows, horderly', hprimaries, hP⟩ := h w hw horderly
  exact ⟨hgrows, horderly', fun id => by rw [hprimaries, hnodes], hP⟩

/-- A node that has no type gets no primary placeholder. -/
lemma Collects.untyped (h : Collects first i m nodes P) (hn : isTyped n = false) :
    Collects first i m (nodes ++ [n]) P :=
  h.congr fun id => by simp [typedNumbers, hn]

lemma Collects.rotate (h : Collects first i m (nodes ++ [n]) P) :
    Collects first i m (n :: nodes) P := by
  refine h.congr fun id => ?_
  have hcons : typedNumbers (n :: nodes) = typedNumbers [n] ++ typedNumbers nodes :=
    typedNumbers_append [n] nodes
  rw [hcons, typedNumbers_append, List.mem_append, List.mem_append, or_comm]

lemma collects_pure {a : α} (h : ∀ j, Grows i j → P a j) : Collects first i (pure a) [] P := by
  intro w hw horderly
  exact ⟨.refl _, horderly, fun id => (or_iff_left List.not_mem_nil).symm, h _ hw⟩

lemma collects_bind (hm : Collects first i m nodes P)
    (hf : ∀ a j, Grows i j → P a j → Collects first j (f a) nodes' Q) :
    Collects first i (m >>= f) (nodes ++ nodes') Q := by
  intro w hw horderly
  obtain ⟨hgrows, horderly', hprimaries, hP⟩ := hm w hw horderly
  obtain ⟨hgrows', horderly'', hprimaries', hQ⟩ :=
    hf (m w).1 (m w).2.inference (hw.trans hgrows) hP (m w).2 (.refl _) horderly'
  rw [bind_run]
  refine ⟨hgrows.trans hgrows', horderly'', fun id => ?_, hQ⟩
  rw [hprimaries', hprimaries, typedNumbers_append, List.mem_append, or_assoc]

/-- The last step that makes placeholders. -/
lemma collects_bind_last (hm : Collects first i m nodes P)
    (hf : ∀ a j, Grows i j → P a j → Collects first j (f a) [] Q) :
    Collects first i (m >>= f) nodes Q := by
  have h := collects_bind hm hf
  rw [List.append_nil] at h
  exact h

/-- A step that neither makes nor constrains placeholders. -/
lemma collects_idle
    (h : ∀ w, (m w).2.inference.next = w.inference.next ∧
      (m w).2.inference.temps = w.inference.temps ∧
      (m w).2.inference.constraints = w.inference.constraints) :
    Collects first i m [] fun _ _ => True := by
  intro w _ horderly
  obtain ⟨hnext, htemps, hconstraints⟩ := h w
  refine ⟨⟨by simp [htemps], by simp [hconstraints]⟩, ⟨?_, ?_, ?_, ?_, ?_⟩, ?_, trivial⟩
  · rw [htemps]
    exact horderly.tags
  · rw [htemps, hnext]
    exact horderly.next
  · rw [primaries, htemps]
    exact horderly.primaries
  · rw [htemps, hconstraints]
    exact horderly.hinted
  · intro c hc tag htag
    rw [hconstraints] at hc
    rw [Made, htemps]
    exact horderly.closed c hc tag htag
  · intro id
    rw [primaries, htemps]
    simp [typedNumbers, primaries]

lemma collects_silent (h : Silent m) : Collects first i m [] fun _ _ => True :=
  collects_idle fun w => by rw [(h w).1]; exact ⟨rfl, rfl, rfl⟩

lemma collects_skip (hm : Silent m) (hf : ∀ a j, Grows i j → Collects first j (f a) nodes Q) :
    Collects first i (m >>= f) nodes Q :=
  collects_bind (collects_silent hm) fun a j hij _ => hf a j hij

/-- Placeholders are made before they are constrained. -/
lemma collects_emits {m : Analyzer Unit} {cs : List Constraint} (h : Emits m cs)
    (hmade : ∀ c ∈ cs, ∀ tag ∈ c.tags, Made i tag) :
    Collects first i m [] fun _ _ => True := by
  intro w hw horderly
  obtain ⟨hconstraints, htemps, hnext⟩ := foldl_constrain cs w.inference
  have hgrows : Grows w.inference (cs.foldl Inference.constrain w.inference) :=
    ⟨by simp [htemps], by simp [hconstraints]⟩
  rw [h w]
  refine ⟨hgrows, ⟨?_, ?_, ?_, ?_, ?_⟩, ?_, trivial⟩
  · simpa only [htemps] using horderly.tags
  · simpa only [htemps, hnext] using horderly.next
  · simpa only [primaries, htemps] using horderly.primaries
  · intro temp htemp ty hty
    simp only [htemps] at htemp
    exact hgrows.constraints.subset (horderly.hinted temp htemp ty hty)
  · intro c hc tag htag
    simp only [hconstraints] at hc
    rcases List.mem_append.mp hc with hold | hnew
    · exact (horderly.closed c hold tag htag).mono hgrows
    · exact ((hmade c hnew tag htag).mono hw).mono hgrows
  · intro id
    simp [primaries, htemps, typedNumbers]

lemma collects_spec {target : Tag} {term : Term} (htarget : Made i target)
    (hterm : ∀ tag ∈ term.tags, Made i tag) :
    Collects first i (spec target term) [] fun _ _ => True :=
  collects_emits (emits_spec target term)
    (List.forall_mem_singleton.mpr (List.forall_mem_cons.mpr ⟨htarget, hterm⟩))

lemma collects_same {left right : Tag} (hleft : Made i left) (hright : Made i right) :
    Collects first i (same left right) [] fun _ _ => True :=
  collects_emits (emits_same left right) (by simp [Constraint.tags, hleft, hright])

/-- A step that only constrains comes before others. -/
lemma collects_then {m : Analyzer Unit} {f : Unit → Analyzer β}
    (hm : Collects first i m [] fun _ _ => True)
    (hf : ∀ j, Grows i j → Collects first j (f ()) nodes Q) :
    Collects first i (m >>= f) nodes Q :=
  collects_bind hm fun _ j hij _ => hf j hij

lemma collects_tempFor {f : Tag → Analyzer β} (hn : isTyped n = true)
    (hf : ∀ t j, Grows i j → Made j t → Collects first j (f t) nodes Q) :
    Collects first i (tempFor n.site.id hint >>= f) (nodes ++ [n]) Q := by
  have hmake : Collects first i (tempFor n.site.id hint) [n] fun t j => Made j t := by
    intro w _ horderly
    refine ⟨.tempFor w.inference n.site.id hint, horderly.tempFor n.site.id hint, fun id => ?_,
      made_of_primary? (tempFor_primary? w.inference n.site.id hint)⟩
    have hnumbers : typedNumbers [n] = [n.site.id] := by simp [typedNumbers, hn]
    rw [hnumbers, List.mem_singleton]
    exact primaries_tempFor w.inference n.site.id hint id
  refine (collects_bind hmake hf).congr fun id => ?_
  simp only [typedNumbers_append, List.mem_append, or_comm]

lemma collects_leaf {f : Tag → Analyzer β} (hn : isTyped n = true)
    (hf : ∀ t j, Grows i j → Made j t → Collects first j (f t) [] Q) :
    Collects first i (tempFor n.site.id hint >>= f) [n] Q :=
  collects_tempFor hn hf

/-- An expression answers with the placeholder made for it. -/
lemma collects_expr {e : Expr} {f : Tag → Analyzer Tag}
    (hf : ∀ t j, Grows i j → Made j t → Collects first j (f t) nodes fun t' _ => t' = t) :
    Collects first i (tempFor e.site.id none >>= f) (nodes ++ [.expr e]) fun t j => Made j t := by
  refine collects_tempFor (n := .expr e) rfl fun t j hij ht w hw horderly => ?_
  obtain ⟨hgrows, horderly', hprimaries, hanswer⟩ := hf t j hij ht w hw horderly
  refine ⟨hgrows, horderly', hprimaries, ?_⟩
  rw [hanswer]
  exact ht.mono (hw.trans hgrows)

lemma collects_leafExpr {e : Expr} {f : Tag → Analyzer Tag}
    (hf : ∀ t j, Grows i j → Made j t → Collects first j (f t) [] fun t' _ => t' = t) :
    Collects first i (tempFor e.site.id none >>= f) [.expr e] fun t j => Made j t :=
  collects_expr hf

lemma collects_aux {f : Tag → Analyzer β}
    (hf : ∀ t j, Grows i j → Made j t → Collects first j (f t) nodes Q) :
    Collects first i (aux node hint >>= f) nodes Q := by
  have hmake : Collects first i (aux node hint) [] fun t j => Made j t := by
    intro w _ horderly
    have hprimaries : ∀ id, id ∈ primaries (w.inference.newTemp node hint false).2 ↔
        id ∈ primaries w.inference ∨ id ∈ typedNumbers [] := by
      simp [primaries_newTemp, typedNumbers]
    exact ⟨.newTemp w.inference node hint false, horderly.newTemp hint nofun, hprimaries,
      made_newTemp w.inference node hint false⟩
  exact collects_bind hmake hf

end

/-- The placeholders of the names in scope were made. -/
def Live (i : Inference) (env : Env) : Prop :=
  ∀ symbol ∈ env, ∀ tag ∈ symbol.temp, Made i tag

lemma Live.mono (hij : Grows i j) (h : Live i env) : Live j env :=
  fun symbol hmem tag htag => (h symbol hmem tag htag).mono hij

lemma Live.append {env' : Env} (h : Live i env) (h' : Live i env') : Live i (env ++ env') :=
  List.forall_mem_append.mpr ⟨h, h'⟩

lemma live_nil : Live i [] := nofun

lemma live_singleton {symbol : Symbol} (htemp : symbol.temp = some tag) (h : Made i tag) :
    Live i [symbol] := by
  refine List.forall_mem_singleton.mpr fun tag' htag' => ?_
  obtain rfl : tag = tag' := Option.some.inj (htemp.symm.trans htag')
  exact h

/-- A function of the library has no placeholder of its own. -/
lemma live_library : Live i Library.symbols := by
  intro symbol hmem tag htag
  obtain ⟨signature, -, rfl⟩ := List.mem_map.mp hmem
  cases htag

lemma collects_declare {symbol : Symbol} (hscope : Live i scope) (htemp : symbol.temp = some tag)
    (htag : Made i tag) :
    Collects first i (declare scope symbol) [] fun scope' j => Live j scope' := by
  unfold declare
  cases Env.lookup? scope symbol.name with
  | none =>
    exact collects_pure fun j hij => (hscope.append (live_singleton htemp htag)).mono hij
  | some previous =>
    exact collects_skip (silent_report _) fun _ j hij =>
      collects_pure fun k hjk => hscope.mono (hij.trans hjk)

lemma collects_resolveUse (henv : Live i env) (name : String) (site : Site) :
    Collects first i (resolveUse env name site) [] fun used j => ∀ tag ∈ used, Made j tag := by
  unfold resolveUse
  cases hfound : Env.lookup? env name with
  | none => exact collects_skip (silent_report _) fun _ _ _ => collects_pure fun _ _ => nofun
  | some symbol =>
    have hsymbol := henv symbol (List.mem_of_find?_eq_some hfound)
    obtain ⟨name', kind, ty, temp, span⟩ := symbol
    cases temp with
    | some tag => exact collects_pure fun j hij tag' htag' => (hsymbol tag' htag').mono hij
    | none =>
      cases ty with
      | none => exact collects_pure fun _ _ => nofun
      | some ty =>
        refine collects_aux fun t j _ ht => collects_pure fun k hjk tag htag => ?_
        obtain rfl : t = tag := Option.some.inj htag
        exact ht.mono hjk

/-- What is said of a name that is used concerns its placeholder, which was made. -/
lemma collects_constrainUse (henv : Live i env) {name : String} {site : Site}
    {step : Tag → Analyzer Unit}
    (hstep : ∀ tag j, Grows i j → Made j tag → Collects first j (step tag) [] fun _ _ => True) :
    Collects first i (constrainUse env name site step) [] fun _ _ => True := by
  refine collects_bind (collects_resolveUse henv name site) fun used j hij hused => ?_
  cases used with
  | none => exact collects_pure fun _ _ => trivial
  | some tag => exact hstep tag j hij (hused tag rfl)

lemma collects_construct {target : Tag} {name : String} {args : List Tag} {span : Span}
    (htarget : Made i target) (hargs : ∀ tag ∈ args, Made i tag) :
    Collects first i (construct target name args span) [] fun _ _ => True := by
  have hsilent : Silent (constructorOf name span) := by
    intro w
    rw [constructorOf_run]
    cases w.types.constructorWithin? name w.passed <;> exact ⟨rfl, rfl, rfl⟩
  rw [construct_eq]
  refine collects_skip hsilent fun found j hij => ?_
  cases found with
  | none => exact collects_pure fun _ _ => trivial
  | some info =>
    refine collects_skip (silent_ite (silent_report _) (silent_pure ())) fun _ k hjk => ?_
    have hik := hij.trans hjk
    refine collects_then (collects_spec (htarget.mono hik) nofun) fun l hkl => ?_
    refine collects_emits (emits_forM (fun a : Tag × Ty => emits_spec a.1 a.2.toTerm) _) ?_
    intro c hc tag htag
    obtain ⟨⟨arg, ty⟩, hmem, rfl⟩ := List.mem_map.mp hc
    obtain rfl : tag = arg := by simpa [Constraint.tags, Ty.tags_toTerm] using htag
    exact (hargs tag (List.of_mem_zip hmem).1).mono (hik.trans hkl)

lemma collects_validateMutable (site : Site) (name : String) (ty : Option Ty) :
    Collects first i (validateMutable site name ty) [] fun _ _ => True := by
  cases ty with
  | none => exact collects_idle fun _ => ⟨rfl, rfl, rfl⟩
  | some ty => exact collects_silent (silent_validate ty name site.span)

lemma isTyped_of_mem_typeGroup {group : TypeGroup} (h : n ∈ group.nodes) : isTyped n = false := by
  rcases List.mem_append.mp h with hdefs | hgroup
  · obtain ⟨d, -, hd⟩ := List.mem_flatMap.mp hdefs
    rcases List.mem_append.mp hd with hconstructors | hdef
    · obtain ⟨c, -, rfl⟩ := List.mem_map.mp hconstructors
      rfl
    · obtain rfl := List.mem_singleton.mp hdef
      rfl
  · obtain rfl := List.mem_singleton.mp hgroup
    rfl

lemma collects_typeGroup (group : TypeGroup) :
    Collects first i group.analyze group.nodes fun _ _ => True := by
  have hidle : Collects first i group.analyze [] fun _ _ => True :=
    collects_idle fun w => by rw [typeGroup_run]; exact ⟨rfl, rfl, rfl⟩
  refine hidle.congr fun id => iff_of_false List.not_mem_nil fun hid => ?_
  obtain ⟨n, hn, htyped, -⟩ := mem_typedNumbers.mp hid
  rw [isTyped_of_mem_typeGroup hn] at htyped
  cases htyped

def PatternCollects (p : Pattern) : Prop :=
  ∀ first i scope, Live i scope →
    Collects first i (elaboratePattern p scope) p.nodes
      (fun r j => Made j r.1 ∧ Live j r.2)

lemma collects_patterns {ps : List Pattern} (h : ∀ p ∈ ps, PatternCollects p)
    (hscope : Live i scope) :
    Collects first i (elaboratePatterns ps scope) (Pattern.nodesOfList ps)
      (fun r j => (∀ tag ∈ r.1, Made j tag) ∧ Live j r.2) := by
  induction ps generalizing i scope with
  | nil => exact collects_pure fun j hij => ⟨nofun, hscope.mono hij⟩
  | cons p ps ih =>
    refine collects_bind (h p (by simp) first i scope hscope) fun r j _ hr => ?_
    refine collects_bind_last (ih (fun q hq => h q (by simp [hq])) hr.2) fun others k hjk hall => ?_
    refine collects_pure fun l hkl => ⟨?_, hall.2.mono hkl⟩
    exact List.forall_mem_cons.mpr ⟨hr.1.mono (hjk.trans hkl), fun tag htag =>
      (hall.1 tag htag).mono hkl⟩

lemma pattern_collects : PatternCases PatternCollects where
  constr site name args ih first i scope hscope := by
    refine collects_tempFor (n := .pattern (.constr site name args)) rfl fun p j hij hp => ?_
    refine collects_bind_last (collects_patterns ih (hscope.mono hij)) fun r k hjk hr => ?_
    have hpk := hp.mono hjk
    refine collects_then (collects_construct hpk hr.1) fun l hkl => ?_
    exact collects_pure fun m hlm =>
      ⟨hpk.mono (hkl.trans hlm), hr.2.mono (hkl.trans hlm)⟩
  const site value first i scope hscope := by
    refine collects_leaf (n := .pattern (.const site value)) rfl
      fun p j hij hp => ?_
    refine collects_then (collects_spec hp (by simp [Ty.tags_toTerm])) fun k hjk => ?_
    exact collects_pure fun l hkl =>
      ⟨hp.mono (hjk.trans hkl), hscope.mono (hij.trans (hjk.trans hkl))⟩
  var site name first i scope hscope := by
    refine collects_leaf (n := .pattern (.var site name)) rfl
      fun p j hij hp => ?_
    refine collects_bind (collects_declare (hscope.mono hij) rfl hp) fun scope' k hjk hall => ?_
    exact collects_pure fun l hkl => ⟨hp.mono (hjk.trans hkl), hall.mono hkl⟩

/-- The definitions of a group get their placeholders when their names are declared, if they
have none yet. -/
lemma collects_declareDefs (ds : List Def) (hscope : Live i scope) :
    Collects first i (declareDefs ds scope) (ds.map .definition) fun scope' j => Live j scope' := by
  induction ds generalizing i scope with
  | nil => exact collects_pure fun j hij => hscope.mono hij
  | cons d ds ih =>
    refine (collects_tempFor (n := .definition d) rfl fun t j hij ht => ?_).rotate
    exact collects_bind (collects_declare (hscope.mono hij) rfl ht) fun _ k _ hall => ih hall

lemma collects_declareParams {function : String} (ps : List Param) (hscope : Live i scope) :
    Collects first i (declareParams function ps scope) (ps.map .param)
      (fun r j => (∀ tag ∈ r.1, Made j tag) ∧ Live j r.2) := by
  induction ps generalizing i scope with
  | nil => exact collects_pure fun j hij => ⟨nofun, hscope.mono hij⟩
  | cons p ps ih =>
    refine (collects_tempFor (n := .param p) rfl fun t j hij ht => ?_).rotate
    refine collects_skip (silent_ite (silent_report _) (silent_pure ())) fun _ k hjk => ?_
    refine collects_bind (collects_declare (hscope.mono (hij.trans hjk)) rfl (ht.mono hjk))
      fun scope' l hkl hall => ?_
    refine collects_bind_last (ih hall) fun others m hlm hothers => ?_
    refine collects_pure fun n hmn => ⟨?_, hothers.2.mono hmn⟩
    exact List.forall_mem_cons.mpr ⟨ht.mono (hjk.trans (hkl.trans (hlm.trans hmn))),
      fun tag htag => (hothers.1 tag htag).mono hmn⟩

def ExprCollects (e : Expr) : Prop :=
  ∀ first i env, Live i env →
    Collects first i (elaborateExpr e env) e.nodes (fun t j => Made j t)

def DefCollects (d : Def) : Prop :=
  ∀ first i env, Live i env →
    Collects first i (elaborateDef d env) d.nodes (fun _ _ => True)

section

variable {env : Env}

lemma collects_exprs {es : List Expr} (h : ∀ e ∈ es, ExprCollects e) (henv : Live i env) :
    Collects first i (elaborateExprs es env) (Expr.nodesOfList es)
      (fun ts j => ∀ tag ∈ ts, Made j tag) := by
  induction es generalizing i with
  | nil => exact collects_pure fun _ _ => nofun
  | cons e es ih =>
    refine collects_bind (h e (by simp) first i env henv) fun t j hij ht => ?_
    refine collects_bind_last (ih (fun x hx => h x (by simp [hx])) (henv.mono hij))
      fun others k hjk hothers => ?_
    exact collects_pure fun l hkl => List.forall_mem_cons.mpr
      ⟨ht.mono (hjk.trans hkl), fun tag htag => (hothers tag htag).mono hkl⟩

lemma collects_sizes {es : List Expr} (h : ∀ e ∈ es, ExprCollects e) (henv : Live i env) :
    Collects first i (elaborateSizes es env) (Expr.nodesOfList es) fun _ _ => True := by
  induction es generalizing i with
  | nil => exact collects_pure fun _ _ => trivial
  | cons e es ih =>
    refine collects_bind (h e (by simp) first i env henv) fun t j hij ht => ?_
    refine collects_then (collects_spec ht nofun) fun k hjk => ?_
    exact ih (fun x hx => h x (by simp [hx])) (henv.mono (hij.trans hjk))

lemma collects_clauses {cs : List Clause} (h : ∀ c ∈ cs, ExprCollects c.body)
    (henv : Live i env) {result scrutinee : Tag} (hresult : Made i result)
    (hscrutinee : Made i scrutinee) :
    Collects first i (elaborateClauses cs result scrutinee env) (Clause.nodesOfList cs)
      fun _ _ => True := by
  induction cs generalizing i with
  | nil => exact collects_pure fun _ _ => trivial
  | cons c cs ih =>
    obtain ⟨site, pattern, body⟩ := c
    have hclause : ∀ id,
        id ∈ typedNumbers (pattern.nodes ++ (body.nodes ++ Clause.nodesOfList cs)) ↔
          id ∈ typedNumbers (Clause.nodesOfList (.mk site pattern body :: cs)) := by
      intro id
      simp [Clause.nodesOfList, Clause.nodes, typedNumbers, isTyped]
    refine Collects.congr ?_ hclause
    refine collects_bind (pattern_collects.pattern pattern first i [] live_nil) fun p j hij hp => ?_
    refine collects_then (collects_same hp.1 (hscrutinee.mono hij)) fun k hjk => ?_
    have hik := hij.trans hjk
    have hbody := (hp.2.mono hjk).append (henv.mono hik)
    refine collects_bind (h _ List.mem_cons_self first k _ hbody) fun b l hkl hb => ?_
    refine collects_then (collects_same (hresult.mono (hik.trans hkl)) hb) fun m hlm => ?_
    have him := hik.trans (hkl.trans hlm)
    exact ih (fun x hx => h x (by simp [hx])) (henv.mono him) (hresult.mono him)
      (hscrutinee.mono him)

lemma collects_defs (h : ∀ d ∈ ds, DefCollects d) (henv : Live i env) :
    Collects first i (elaborateDefs ds env) (Def.nodesOfList ds) fun _ _ => True := by
  induction ds generalizing i with
  | nil => exact collects_pure fun _ _ => trivial
  | cons d ds ih =>
    refine collects_bind (h d (by simp) first i env henv) fun _ j hij _ => ?_
    exact ih (fun x hx => h x (by simp [hx])) (henv.mono hij)

lemma mem_defNodes_of_mem {d : Def} (h : d ∈ ds) : .definition d ∈ Def.nodesOfList ds := by
  rw [defNodes_eq_flatMap]
  refine List.mem_flatMap.mpr ⟨d, h, ?_⟩
  cases d <;> simp [Def.nodes]

/-- The placeholders of definitions that are made with their names are those of nodes of the
group, so the group has no others. -/
lemma mem_typedNumbers_definitions {id : NodeId} (h : id ∈ typedNumbers (ds.map .definition)) :
    id ∈ typedNumbers (Def.nodesOfList ds) := by
  obtain ⟨n, hn, htyped, hid⟩ := mem_typedNumbers.mp h
  obtain ⟨d, hd, rfl⟩ := List.mem_map.mp hn
  exact mem_typedNumbers.mpr ⟨.definition d, mem_defNodes_of_mem hd, htyped, hid⟩

lemma collects_group {g : LetGroup} (h : ∀ d ∈ g.defs, DefCollects d) (henv : Live i env) :
    Collects first i (elaborateGroup g env) g.nodes fun scope j => Live j scope := by
  obtain ⟨site, isRec, ds⟩ := g
  refine Collects.untyped (n := .letGroup (.mk site isRec ds)) ?_ rfl
  cases isRec with
  | true =>
    have hnodes : ∀ id, id ∈ typedNumbers (ds.map .definition ++ Def.nodesOfList ds) ↔
        id ∈ typedNumbers (Def.nodesOfList ds) := by
      intro id
      rw [typedNumbers_append, List.mem_append]
      exact or_iff_right_of_imp mem_typedNumbers_definitions
    refine Collects.congr ?_ hnodes
    refine collects_bind (collects_declareDefs ds live_nil) fun scope j hij hscope => ?_
    refine collects_bind_last (collects_defs h (hscope.append (henv.mono hij)))
      fun _ k hjk _ => ?_
    exact collects_pure fun l hkl => hscope.mono (hjk.trans hkl)
  | false =>
    have hnodes : ∀ id, id ∈ typedNumbers (Def.nodesOfList ds ++ ds.map .definition) ↔
        id ∈ typedNumbers (Def.nodesOfList ds) := by
      intro id
      rw [typedNumbers_append, List.mem_append]
      exact or_iff_left_of_imp mem_typedNumbers_definitions
    refine Collects.congr ?_ hnodes
    exact collects_bind (collects_defs h henv) fun _ j _ _ => collects_declareDefs ds live_nil

end

/-- Every expression and every definition gives primary placeholders to its nodes that have types,
and constrains none that was not made. -/
lemma tree_collects : TreeCases ExprCollects DefCollects where
  const site value first i env _ := by
    refine collects_leafExpr (e := .const site value) fun t j _ ht => ?_
    refine collects_then (collects_spec ht (by simp [Ty.tags_toTerm])) fun _ _ => ?_
    exact collects_pure fun _ _ => rfl
  constr site name first i env _ := by
    refine collects_leafExpr (e := .constr site name) fun t j _ ht => ?_
    exact collects_then (collects_construct ht nofun) fun _ _ => collects_pure fun _ _ => rfl
  var site name first i env henv := by
    refine collects_leafExpr (e := .var site name) fun t j hij ht => ?_
    refine collects_then (collects_constrainUse (henv.mono hij) fun s k hjk hs =>
      collects_same (ht.mono hjk) hs) fun _ _ => ?_
    exact collects_pure fun _ _ => rfl
  construct site name args h first i env henv := by
    refine collects_expr (e := .construct site name args) fun t j hij ht => ?_
    refine collects_bind_last (collects_exprs h (henv.mono hij)) fun ts k hjk hts => ?_
    refine collects_then (collects_construct (ht.mono hjk) hts) fun _ _ => ?_
    exact collects_pure fun _ _ => rfl
  call site name args h first i env henv := by
    refine collects_expr (e := .call site name args) fun t j hij ht => ?_
    refine collects_bind_last (collects_exprs h (henv.mono hij)) fun ts k hjk hts => ?_
    have hsaid : ∀ f l, Grows k l → Made l f →
        Collects first l (spec f (Term.curried (ts.map .temp) (.temp t))) [] fun _ _ => True := by
      intro f l hkl hf
      refine collects_spec hf fun tag htag => ?_
      rw [Term.tags_curried] at htag
      rcases List.mem_append.mp htag with harg | hresult
      · exact (hts tag harg).mono hkl
      · obtain rfl := List.mem_singleton.mp hresult
        exact ht.mono (hjk.trans hkl)
    refine collects_then (collects_constrainUse (henv.mono (hij.trans hjk)) hsaid) fun _ _ => ?_
    exact collects_pure fun _ _ => rfl
  element site name indices h first i env henv := by
    refine collects_expr (e := .element site name indices) fun t j hij ht => ?_
    refine collects_bind_last (collects_sizes h (henv.mono hij)) fun _ k hjk _ => ?_
    refine collects_aux fun e l hkl he => ?_
    refine collects_then (collects_constrainUse (henv.mono (hij.trans (hjk.trans hkl)))
      fun a m hlm ha => collects_spec ha (List.forall_mem_singleton.mpr (he.mono hlm)))
      fun m hlm => ?_
    refine collects_then (collects_spec (ht.mono (hjk.trans (hkl.trans hlm)))
      (List.forall_mem_singleton.mpr (he.mono hlm))) fun _ _ => ?_
    exact collects_pure fun _ _ => rfl
  dim site dimension name first i env henv := by
    refine collects_leafExpr (e := .dim site dimension name) fun t j hij ht => ?_
    refine collects_skip (silent_ite (silent_report _) (silent_pure ())) fun _ k hjk => ?_
    refine collects_then (collects_constrainUse (henv.mono (hij.trans hjk)) fun a l hkl ha =>
      collects_emits (emits_oneOf a _) (List.forall_mem_singleton.mpr
        (List.forall_mem_singleton.mpr ha))) fun l hkl => ?_
    refine collects_then (collects_spec (ht.mono (hjk.trans hkl)) nofun) fun _ _ => ?_
    exact collects_pure fun _ _ => rfl
  binary site op left right hl hr first i env henv := by
    refine collects_expr (e := .binary site op left right) fun t j hij ht => ?_
    refine collects_bind (hl first j env (henv.mono hij)) fun l k hjk hl => ?_
    refine collects_bind_last (hr first k env (henv.mono (hij.trans hjk))) fun r n hkn hr => ?_
    have hmade : ∀ c ∈ binaryDemands op t l r, ∀ tag ∈ c.tags, Made n tag := by
      intro c hc tag htag
      rcases binaryDemands_tags hc tag htag with rfl | rfl | rfl
      · exact ht.mono (hjk.trans hkn)
      · exact hl.mono hkn
      · exact hr
    refine collects_then (collects_emits (emits_relate op t l r) hmade) fun _ _ => ?_
    exact collects_pure fun _ _ => rfl
  unary site op operand h first i env henv := by
    refine collects_expr (e := .unary site op operand) fun t j hij ht => ?_
    refine collects_bind_last (h first j env (henv.mono hij)) fun o k hjk ho => ?_
    have hmade : ∀ c ∈ unaryDemands op t o, ∀ tag ∈ c.tags, Made k tag := by
      intro c hc tag htag
      rcases unaryDemands_tags hc tag htag with rfl | rfl
      · exact ht.mono hjk
      · exact ho
    refine collects_then (collects_emits (emits_relateUnary op t o) hmade) fun _ _ => ?_
    exact collects_pure fun _ _ => rfl
  delete site operand h first i env henv := by
    refine collects_expr (e := .delete site operand) fun t j hij ht => ?_
    refine collects_bind_last (h first j env (henv.mono hij)) fun e k hjk he => ?_
    refine collects_aux fun inner l hkl hinner => ?_
    refine collects_then (collects_spec (he.mono hkl) (List.forall_mem_singleton.mpr hinner))
      fun m hlm => ?_
    refine collects_then (collects_spec (ht.mono (hjk.trans (hkl.trans hlm))) nofun)
      fun _ _ => ?_
    exact collects_pure fun _ _ => rfl
  new site ty first i env _ := by
    refine collects_leafExpr (e := .new site ty) fun t j _ ht => ?_
    refine collects_skip (silent_validate _ _ _) fun _ k hjk => ?_
    refine collects_then (collects_spec (ht.mono hjk) (by simp [Ty.tags_toTerm])) fun _ _ => ?_
    exact collects_pure fun _ _ => rfl
  forLoop site counter lower down upper body hf hl hb first i env henv := by
    refine collects_expr (e := .forLoop site counter lower down upper body) fun t j hij ht => ?_
    rw [List.append_assoc]
    refine collects_bind (hf first j env (henv.mono hij)) fun f k hjk hf => ?_
    have hik := hij.trans hjk
    refine collects_bind (hl first k env (henv.mono hik)) fun l n hkn hl => ?_
    refine collects_then (collects_spec (hf.mono hkn) nofun) fun o hno => ?_
    refine collects_then (collects_spec (hl.mono hno) nofun) fun p hop => ?_
    refine collects_aux fun c q hpq hc => ?_
    have hnq := hno.trans (hop.trans hpq)
    have hcounter : Live q [⟨counter, .var, some .int, some c, site.span⟩] :=
      live_singleton rfl hc
    have hbody := hcounter.append (henv.mono (hik.trans (hkn.trans hnq)))
    refine collects_bind_last (hb first q _ hbody) fun b r hqr hb => ?_
    refine collects_then (collects_spec hb nofun) fun s hrs => ?_
    have hjs := hjk.trans (hkn.trans (hnq.trans (hqr.trans hrs)))
    exact collects_then (collects_spec (ht.mono hjs) nofun) fun _ _ => collects_pure fun _ _ => rfl
  whileLoop site condition body hc hb first i env henv := by
    refine collects_expr (e := .whileLoop site condition body) fun t j hij ht => ?_
    refine collects_bind (hc first j env (henv.mono hij)) fun c k hjk hc => ?_
    refine collects_bind_last (hb first k env (henv.mono (hij.trans hjk))) fun b l hkl hb => ?_
    refine collects_then (collects_spec (hc.mono hkl) nofun) fun m hlm => ?_
    refine collects_then (collects_spec (hb.mono hlm) nofun) fun n hmn => ?_
    have hjn := hjk.trans (hkl.trans (hlm.trans hmn))
    exact collects_then (collects_spec (ht.mono hjn) nofun) fun _ _ => collects_pure fun _ _ => rfl
  ifThen site condition positive hc hp first i env henv := by
    refine collects_expr (e := .ifThen site condition positive) fun t j hij ht => ?_
    refine collects_bind (hc first j env (henv.mono hij)) fun c k hjk hc => ?_
    refine collects_then (collects_spec hc nofun) fun l hkl => ?_
    have hjl := hjk.trans hkl
    refine collects_bind_last (hp first l env (henv.mono (hij.trans hjl))) fun p m hlm hp => ?_
    refine collects_then (collects_spec hp nofun) fun n hmn => ?_
    have hjn := hjl.trans (hlm.trans hmn)
    exact collects_then (collects_spec (ht.mono hjn) nofun) fun _ _ => collects_pure fun _ _ => rfl
  ifElse site condition positive negative hc hp hn first i env henv := by
    refine collects_expr (e := .ifElse site condition positive negative) fun t j hij ht => ?_
    rw [List.append_assoc]
    refine collects_bind (hc first j env (henv.mono hij)) fun c k hjk hc => ?_
    refine collects_then (collects_spec hc nofun) fun l hkl => ?_
    have hil := hij.trans (hjk.trans hkl)
    refine collects_bind (hp first l env (henv.mono hil)) fun p m hlm hp => ?_
    refine collects_bind_last (hn first m env (henv.mono (hil.trans hlm))) fun n o hmo hn => ?_
    refine collects_then (collects_same (hp.mono hmo) hn) fun q hoq => ?_
    have hjq := hjk.trans (hkl.trans (hlm.trans (hmo.trans hoq)))
    refine collects_then (collects_same (ht.mono hjq) (hp.mono (hmo.trans hoq))) fun _ _ => ?_
    exact collects_pure fun _ _ => rfl
  letIn site group body hg hb first i env henv := by
    refine collects_expr (e := .letIn site group body) fun t j hij ht => ?_
    refine collects_bind (collects_group hg (henv.mono hij)) fun scope k hjk hscope => ?_
    have hbody := hscope.append (henv.mono (hij.trans hjk))
    refine collects_bind_last (hb first k _ hbody) fun b l hkl hb => ?_
    refine collects_then (collects_same (ht.mono (hjk.trans hkl)) hb) fun _ _ => ?_
    exact collects_pure fun _ _ => rfl
  matchWith site scrutinee clauses hs hc first i env henv := by
    refine collects_expr (e := .matchWith site scrutinee clauses) fun t j hij ht => ?_
    refine collects_bind (hs first j env (henv.mono hij)) fun s k hjk hs => ?_
    refine collects_bind_last (collects_clauses hc (henv.mono (hij.trans hjk)) (ht.mono hjk) hs)
      fun _ _ _ _ => ?_
    exact collects_pure fun _ _ => rfl
  function site name params result body hb first i env henv := by
    refine collects_skip (silent_forM (fun _ => silent_validateOption _ _ _) _) fun _ j hij => ?_
    refine collects_skip (silent_validateResult _ _ _) fun _ k hjk => ?_
    refine collects_tempFor (n := .definition (.function site name params result body)) rfl
      fun f l hkl hf => ?_
    have hil := hij.trans (hjk.trans hkl)
    refine collects_bind (collects_declareParams params live_nil) fun ps m hlm hps => ?_
    have hbody := hps.2.append (henv.mono (hil.trans hlm))
    refine collects_bind_last (hb first m _ hbody) fun b n hmn hb => ?_
    have hresult : Collects first n (forSome result fun ty => spec b ty.toTerm) []
        fun _ _ => True := by
      cases result with
      | none => exact collects_pure fun _ _ => trivial
      | some ty => exact collects_spec hb (by simp [Ty.tags_toTerm])
    refine collects_then hresult fun o hno => ?_
    refine collects_spec (hf.mono (hlm.trans (hmn.trans hno))) fun tag htag => ?_
    rw [Term.tags_curried] at htag
    rcases List.mem_append.mp htag with hparam | hlast
    · exact (hps.1 tag hparam).mono (hmn.trans hno)
    · obtain rfl := List.mem_singleton.mp hlast
      exact hb.mono hno
  constant site name ty body hb first i env henv := by
    refine collects_skip (silent_validateOption _ _ _) fun _ j hij => ?_
    refine collects_tempFor (n := .definition (.constant site name ty body)) rfl
      fun c k hjk hc => ?_
    refine collects_bind_last (hb first k env (henv.mono (hij.trans hjk))) fun b l hkl hb => ?_
    exact collects_same (hc.mono hkl) hb
  mutableVar site name ty first i env _ := by
    refine collects_leaf (n := .definition (.mutableVar site name ty)) rfl
      fun _ _ _ _ => ?_
    exact collects_validateMutable site name _
  mutableArray site name dims ty hd first i env henv := by
    refine collects_bind (collects_sizes hd henv) fun _ j _ _ => ?_
    refine collects_leaf (n := .definition (.mutableArray site name dims ty)) rfl
      fun _ _ _ _ => ?_
    exact collects_validateMutable site name _

lemma collects_definitions (ds : List Definition) (henv : Live i env) :
    Collects first i (elaborateDefinitions ds env) (ds.flatMap Definition.nodes)
      fun _ _ => True := by
  induction ds generalizing i env with
  | nil => exact collects_pure fun _ _ => trivial
  | cons d ds ih =>
    cases d with
    | lets group =>
      refine collects_bind (collects_group (tree_collects.group group) henv)
        fun scope j hij hscope => ?_
      exact ih (hscope.append (henv.mono hij))
    | types group =>
      refine collects_bind (collects_typeGroup group) fun _ j hij _ => ih (henv.mono hij)

end Llama.Proofs
