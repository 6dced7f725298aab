import Llama.Proofs.Placeholders
import Mathlib.Data.List.Nodup

/-!
# What an analysis leaves behind

The output of an analysis is closed and complete: no constraint mentions a placeholder that is
not listed, every node that has a type has one primary placeholder, and no use of a name goes
without a constraint or a report. The last holds because the rules of scope find every use that
is among the nodes of a program.
-/

namespace Llama.Proofs

variable {nodes : List Node} {fs : List Finding}

/-- The name that an expression uses, and in what way. -/
def nameUse? : Expr → Option (String × UseForm)
  | .var _ name => some (name, .var)
  | .call _ name args => some (name, .call (args.map fun e => e.site.id))
  | .element _ name indices => some (name, .element indices.length)
  | .dim _ _ name => some (name, .dim)
  | _ => none

/-- The rules of scope find every use of a name that is among the nodes. -/
def UsesFound (nodes : List Node) (findings : List Finding) : Prop :=
  ∀ e name form, .expr e ∈ nodes → nameUse? e = some (name, form) →
    ∃ binding, Finding.use ⟨e.site, name, form, binding⟩ ∈ findings

lemma usesFound_nil (fs : List Finding) : UsesFound [] fs := nofun

lemma UsesFound.append {nodes' : List Node} {gs : List Finding} (h : UsesFound nodes fs)
    (h' : UsesFound nodes' gs) : UsesFound (nodes ++ nodes') (fs ++ gs) := by
  intro e name form he huse
  rcases List.mem_append.mp he with hfirst | hlater
  · obtain ⟨binding, hmem⟩ := h e name form hfirst huse
    exact ⟨binding, List.mem_append_left _ hmem⟩
  · obtain ⟨binding, hmem⟩ := h' e name form hlater huse
    exact ⟨binding, List.mem_append_right _ hmem⟩

/-- A node that uses no name has nothing to be found. -/
lemma UsesFound.snoc {n : Node} (h : UsesFound nodes fs)
    (hn : ∀ e, n = .expr e → nameUse? e = none) : UsesFound (nodes ++ [n]) fs := by
  intro e name form he huse
  rcases List.mem_append.mp he with hfirst | hlast
  · exact h e name form hfirst huse
  · rw [hn e (List.mem_singleton.mp hlast).symm] at huse
    cases huse

/-- A node that uses a name, after those below it. -/
lemma UsesFound.use {e : Expr} {name : String} {form : UseForm} (h : UsesFound nodes fs)
    (huse : nameUse? e = some (name, form)) (bindings : List Binding) :
    UsesFound (nodes ++ [.expr e]) (fs ++ [useFinding e.site name form bindings]) := by
  refine h.append fun e' name' form' he' huse' => ?_
  obtain rfl : e' = e := by simpa using he'
  rw [huse] at huse'
  cases huse'
  exact ⟨findBinding bindings name, List.mem_cons_self⟩

lemma usesFound_of_no_expr (h : ∀ e, .expr e ∉ nodes) (fs : List Finding) : UsesFound nodes fs :=
  fun e _ _ he _ => absurd he (h e)

lemma expr_notMem_patterns {ps : List Pattern} (h : ∀ p ∈ ps, ∀ e, .expr e ∉ p.nodes) (e : Expr) :
    .expr e ∉ Pattern.nodesOfList ps := by
  rw [patternNodes_eq_flatMap]
  intro hmem
  obtain ⟨p, hp, he⟩ := List.mem_flatMap.mp hmem
  exact h p hp e he

lemma expr_notMem_pattern : PatternCases fun p => ∀ e, .expr e ∉ p.nodes where
  constr site name args ih e := by simp [Pattern.nodes, expr_notMem_patterns ih e]
  const site value e := by simp [Pattern.nodes]
  var site name e := by simp [Pattern.nodes]

section

variable {bindings : List Binding}

lemma usesFound_exprs {es : List Expr} (h : ∀ e ∈ es, ∀ bs, UsesFound e.nodes (exprFindings e bs)) :
    UsesFound (Expr.nodesOfList es) (exprListFindings es bindings) := by
  induction es with
  | nil => exact usesFound_nil _
  | cons e es ih => exact (h e (by simp) bindings).append (ih fun x hx => h x (by simp [hx]))

lemma usesFound_clauses {cs : List Clause}
    (h : ∀ c ∈ cs, ∀ bs, UsesFound c.body.nodes (exprFindings c.body bs)) :
    UsesFound (Clause.nodesOfList cs) (clauseListFindings cs bindings) := by
  induction cs with
  | nil => exact usesFound_nil _
  | cons c cs ih =>
    obtain ⟨site, pattern, body⟩ := c
    have hpattern := usesFound_of_no_expr (expr_notMem_pattern.pattern pattern)
      (taken (siteBindings pattern.bindings))
    have hclause := (hpattern.append (h _ List.mem_cons_self (siteBindings pattern.bindings ++
      bindings))).snoc (n := .clause (.mk site pattern body)) nofun
    have hall := hclause.append (ih fun x hx => h x (by simp [hx]))
    rw [List.append_assoc (taken _)] at hall
    exact hall

lemma usesFound_defs {ds : List Def} (h : ∀ d ∈ ds, ∀ bs, UsesFound d.nodes (defFindings d bs)) :
    UsesFound (Def.nodesOfList ds) (defListFindings ds bindings) := by
  induction ds with
  | nil => exact usesFound_nil _
  | cons d ds ih => exact (h d (by simp) bindings).append (ih fun x hx => h x (by simp [hx]))

lemma usesFound_group {g : LetGroup}
    (h : ∀ d ∈ g.defs, ∀ bs, UsesFound d.nodes (defFindings d bs)) :
    UsesFound g.nodes (groupFindings g bindings) := by
  obtain ⟨site, isRec, ds⟩ := g
  refine UsesFound.snoc (n := .letGroup (.mk site isRec ds)) ?_ nofun
  cases isRec with
  | true => exact (usesFound_nil (taken (defBindings ds))).append (usesFound_defs h)
  | false =>
    have hdefs : UsesFound (Def.nodesOfList ds) (defListFindings ds bindings) := usesFound_defs h
    have hgroup := hdefs.append (usesFound_nil (taken (defBindings ds)))
    rw [List.append_nil] at hgroup
    exact hgroup

end

lemma tree_usesFound : TreeCases (fun e => ∀ bs, UsesFound e.nodes (exprFindings e bs))
    (fun d => ∀ bs, UsesFound d.nodes (defFindings d bs)) where
  const _ _ _ := (usesFound_nil _).snoc (by simp [nameUse?])
  constr _ _ _ := (usesFound_nil _).snoc (by simp [nameUse?])
  new _ _ _ := (usesFound_nil _).snoc (by simp [nameUse?])
  var site name bs := (usesFound_nil []).use (e := .var site name) rfl bs
  dim site dimension name bs := (usesFound_nil []).use (e := .dim site dimension name) rfl bs
  call site name args h bs := (usesFound_exprs h).use (e := .call site name args) rfl bs
  element site name indices h bs :=
    (usesFound_exprs h).use (e := .element site name indices) rfl bs
  construct _ _ _ h _ := (usesFound_exprs h).snoc (by simp [nameUse?])
  binary _ _ _ _ hl hr bs := ((hl bs).append (hr bs)).snoc (by simp [nameUse?])
  unary _ _ _ h bs := (h bs).snoc (by simp [nameUse?])
  delete _ _ h bs := (h bs).snoc (by simp [nameUse?])
  forLoop site counter lower down upper body hf hl hb bs := by
    have h := ((hf bs).append (hl bs)).append (hb (⟨counter, site.span, .counter site.id⟩ :: bs))
    rw [List.append_assoc (exprFindings lower bs)] at h
    exact h.snoc (by simp [nameUse?])
  whileLoop _ _ _ hc hb bs := ((hc bs).append (hb bs)).snoc (by simp [nameUse?])
  ifThen _ _ _ hc hp bs := ((hc bs).append (hp bs)).snoc (by simp [nameUse?])
  ifElse site condition positive negative hc hp hn bs := by
    have h := ((hc bs).append (hp bs)).append (hn bs)
    rw [List.append_assoc (exprFindings condition bs)] at h
    exact h.snoc (by simp [nameUse?])
  letIn _ _ _ hg hb bs := ((usesFound_group hg).append (hb _)).snoc (by simp [nameUse?])
  matchWith _ _ _ hs hc bs := ((hs bs).append (usesFound_clauses hc)).snoc (by simp [nameUse?])
  function site name params result body hb bs := by
    have hparams : UsesFound (params.map .param) (taken (paramBindings params)) :=
      usesFound_of_no_expr (by simp) _
    exact (hparams.append (hb _)).snoc nofun
  constant _ _ _ _ hb bs := (hb bs).snoc nofun
  mutableVar _ _ _ _ := (usesFound_nil _).snoc nofun
  mutableArray _ _ _ _ hd _ := (usesFound_exprs hd).snoc nofun

/-- The rules of scope find every use of a name in a program. -/
lemma program_usesFound (program : Program) :
    UsesFound program.nodes (programFindings program) := by
  have hdefinitions : ∀ (ds : List Definition) (bs : List Binding),
      UsesFound (ds.flatMap Definition.nodes) (definitionListFindings ds bs) := by
    intro ds
    induction ds with
    | nil => exact fun _ => usesFound_nil _
    | cons d ds ih =>
      intro bs
      cases d with
      | lets group => exact (usesFound_group (tree_usesFound.group group)).append (ih _)
      | types group =>
        have hgroup : UsesFound group.nodes [] := by
          refine usesFound_of_no_expr (fun e he => ?_) _
          cases isTyped_of_mem_typeGroup he
        exact hgroup.append (ih bs)
  exact hdefinitions program.definitions libraryBindings

lemma countP_temps (i : Inference) (id : NodeId) :
    i.temps.toList.countP (fun temp => temp.primary && temp.node == id) =
      (primaries i).count id := by
  unfold primaries List.count
  rw [List.countP_map, List.countP_filter]
  refine List.countP_congr fun temp _ => ?_
  simp [and_comm]

lemma toNat_tags {first : Tag} {count : Nat} {temps : List Temp}
    (h : temps.map Temp.tag = (List.range count).map fun k => first + UInt32.ofNat k)
    (hroom : first.toNat + count ≤ UInt32.size) :
    temps.map (fun temp => temp.tag.toNat) = List.range' first.toNat count := by
  have htags := congrArg (List.map UInt32.toNat) h
  rw [List.map_map, List.map_map] at htags
  refine htags.trans ?_
  rw [List.range'_eq_map_range]
  refine List.map_congr_left fun k hk => ?_
  have hlt : first.toNat + k < UInt32.size := by
    have := List.mem_range.mp hk
    omega
  rw [Function.comp_apply, UInt32.toNat_add, UInt32.toNat_ofNat_of_lt' (by omega)]
  exact Nat.mod_eq_of_lt hlt

/-- Nodes are told apart by their numbers. -/
lemma eq_of_site_id (hdistinct : (numbers nodes).Nodup) {n n' : Node} (hn : n ∈ nodes)
    (hn' : n' ∈ nodes) (hid : n.site.id = n'.site.id) : n = n' :=
  List.inj_on_of_nodup_map hdistinct hn hn' hid

/-- What is said of a name that is used mentions its placeholder. -/
lemma Said.mentions {i : Inference} {site : Site} {tag : Tag} {form : UseForm}
    (h : Said i site tag form) : ∃ c ∈ i.constraints.toList, tag ∈ c.tags := by
  cases form with
  | var =>
    obtain ⟨t, -, hsame⟩ := h
    exact ⟨_, hsame, by simp [Constraint.tags]⟩
  | call args =>
    obtain ⟨t, ts, -, -, hspec⟩ := h
    exact ⟨_, hspec, List.mem_cons_self⟩
  | element dims =>
    obtain ⟨e, -, hspec⟩ := h
    exact ⟨_, hspec, List.mem_cons_self⟩
  | dim => exact ⟨_, h, List.mem_cons_self⟩

/-- A use of a name that is in scope is constrained against the placeholder of its binder, and a
use of any other name is reported. -/
def Settled (analysis : Analysis) (reports : List Report) (u : Use) : Prop :=
  match u.binding with
  | none => .semantic (.unknownIdentifier u.name u.site.span) ∈ reports
  | some b => ∃ tag, HasTemp (collected analysis) u.site tag b.binder ∧
      Said (collected analysis) u.site tag u.form ∧
      ∃ c ∈ analysis.constraints.toList, tag ∈ c.tags

/-- The output of an analysis is closed and complete. -/
structure AnalysisComplete (program : Program) (firstTag : Tag) (analysis : Analysis)
    (reports : List Report) : Prop where
  /-- The tags are counted from the first one, in 32 bits. -/
  tags : analysis.temps.toList.map Temp.tag =
    (List.range analysis.temps.size).map fun k => firstTag + UInt32.ofNat k
  /-- As long as they do not come round, their numbers go up by one. -/
  numbered : firstTag.toNat + analysis.temps.size ≤ UInt32.size →
    analysis.temps.toList.map (fun temp => temp.tag.toNat) =
      List.range' firstTag.toNat analysis.temps.size
  /-- A node that has a type has one primary placeholder, any other node has none. -/
  primary : ∀ n ∈ program.nodes,
    analysis.temps.toList.countP (fun temp => temp.primary && temp.node == n.site.id) =
      if isTyped n then 1 else 0
  /-- A primary placeholder is that of a node of the program. -/
  owned : ∀ temp ∈ analysis.temps.toList, temp.primary = true →
    ∃ n ∈ program.nodes, isTyped n = true ∧ n.site.id = temp.node
  closed : ∀ c ∈ analysis.constraints.toList, ∀ tag ∈ c.tags,
    ∃ temp ∈ analysis.temps.toList, temp.tag = tag
  hinted : ∀ temp ∈ analysis.temps.toList, ∀ ty ∈ temp.hint,
    .spec temp.tag ty.toTerm ∈ analysis.constraints.toList
  /-- The rules of scope find every use of a name, and it is settled as they say. -/
  uses : ∀ e name form, .expr e ∈ program.nodes → nameUse? e = some (name, form) →
    ∃ binding, Finding.use ⟨e.site, name, form, binding⟩ ∈ programFindings program ∧
      Settled analysis reports ⟨e.site, name, form, binding⟩

/-- The primary placeholders after a walk are those of the nodes that have types. -/
lemma elaborateProgram_collects (program : Program) (types : TypeTable) (firstTag : Tag) :
    let i := (elaborateProgram program (Walk.initial types firstTag)).2.inference
    Orderly firstTag i ∧ ∀ id, id ∈ primaries i ↔ id ∈ typedNumbers program.nodes := by
  obtain ⟨-, horderly, hprimaries, -⟩ := collects_definitions program.definitions live_library
    (Walk.initial types firstTag) (.refl _) (orderly_startingAt firstTag)
  refine ⟨horderly, fun id => (hprimaries id).trans (or_iff_right ?_)⟩
  exact List.not_mem_nil

lemma analyze_settled (program : Program) (types : TypeTable) (firstTag : Tag) (solver : Solver)
    {u : Use} (hu : Finding.use u ∈ programFindings program) :
    Settled (program.analyze types firstTag solver).1 (program.analyze types firstTag solver).2.2
      u := by
  obtain ⟨-, hreports, huses, -⟩ := finds_definitions program.definitions matches_library
    (Walk.initial types firstTag) (.refl _)
  obtain ⟨site, name, form, binding⟩ := u
  cases binding with
  | none =>
    have hreport : Report.semantic (.unknownIdentifier name site.span) ∈
        (programFindings program).filterMap Finding.report? :=
      List.mem_filterMap.mpr ⟨_, hu, rfl⟩
    have hmem := List.mem_append_right
      ((Walk.initial types firstTag).reports.toList.filter isScoping) hreport
    have hfiltered := hreports.symm ▸ hmem
    have hwalk := (List.mem_filter.mp hfiltered).1
    rw [Settled, analyze_reports]
    exact List.mem_append_left _ hwalk
  | some b =>
    obtain ⟨tag, htemp, hsaid⟩ := huses _ hu b rfl
    have hgrows : Grows (elaborateProgram program (Walk.initial types firstTag)).2.inference
        (collected (program.analyze types firstTag solver).1) := by
      rw [collected_analyze]
      exact ⟨List.prefix_refl _, List.prefix_refl _⟩
    have hsaid' := hsaid.mono hgrows
    exact ⟨tag, htemp.mono hgrows, hsaid', hsaid'.mentions⟩

/-- The analysis of a program whose nodes are told apart by their numbers is closed and
complete. -/
theorem analyze_complete (program : Program) (hdistinct : (numbers program.nodes).Nodup)
    (types : TypeTable) (firstTag : Tag) (solver : Solver) :
    AnalysisComplete program firstTag (program.analyze types firstTag solver).1
      (program.analyze types firstTag solver).2.2 := by
  obtain ⟨horderly, hprimaries⟩ := elaborateProgram_collects program types firstTag
  have huses := fun u => analyze_settled program types firstTag solver (u := u)
  rw [analyze_eq] at huses ⊢
  have htags := horderly.tags
  rw [Array.length_toList] at htags
  refine ⟨htags, toNat_tags htags, fun n hn => ?_, fun temp htemp hprimary => ?_,
    horderly.closed, horderly.hinted, fun e name form he huse => ?_⟩
  · have htyped : n.site.id ∈ typedNumbers program.nodes ↔ isTyped n = true := by
      rw [mem_typedNumbers]
      refine ⟨?_, fun h => ⟨n, hn, h, rfl⟩⟩
      rintro ⟨n', hn', htyped, hid⟩
      rw [eq_of_site_id hdistinct hn hn' hid.symm]
      exact htyped
    rw [countP_temps, horderly.primaries.count]
    simp only [hprimaries, htyped]
  · refine mem_typedNumbers.mp ((hprimaries temp.node).mp ?_)
    exact List.mem_map_of_mem (List.mem_filter.mpr ⟨htemp, hprimary⟩)
  · obtain ⟨binding, hfound⟩ := program_usesFound program e name form he huse
    exact ⟨binding, hfound, huses _ hfound⟩

/-- The program is `let f (x : int) = for i = 1 to x do print_int i done let g = h`, in which
`h` is not in scope. -/
def countingProgram : Program where
  definitions := [.lets (.mk ⟨8, default⟩ false
      [.function ⟨7, default⟩ "f" [⟨⟨1, default⟩, "x", some .int⟩] none
        (.forLoop ⟨6, default⟩ "i" (.const ⟨2, default⟩ (.int 1)) false (.var ⟨3, default⟩ "x")
          (.call ⟨5, default⟩ "print_int" [.var ⟨4, default⟩ "i"]))]),
    .lets (.mk ⟨11, default⟩ false
      [.constant ⟨10, default⟩ "g" none (.var ⟨9, default⟩ "h")])]
  nodeCount := 12

theorem analyze_complete_countingProgram :
    (numbers countingProgram.nodes).Nodup ∧
      AnalysisComplete countingProgram 4294967295
        (countingProgram.analyze TypeTable.initial 4294967295 Solver.unsolved).1
        (countingProgram.analyze TypeTable.initial 4294967295 Solver.unsolved).2.2 ∧
      (countingProgram.analyze TypeTable.initial 4294967295 Solver.unsolved).1.temps.toList.map
        Temp.tag = [4294967295, 0, 1, 2, 3, 4, 5, 6, 7, 8, 9] := by
  have hdistinct : (numbers countingProgram.nodes).Nodup := by decide
  refine ⟨hdistinct, analyze_complete countingProgram hdistinct TypeTable.initial 4294967295
    Solver.unsolved, ?_⟩
  decide +kernel

end Llama.Proofs
