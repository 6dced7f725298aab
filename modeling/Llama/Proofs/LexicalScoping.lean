import Llama.Proofs.Resolution
import Llama.Proofs.ScopeSimulation

/-!
# Name resolution is lexical scoping

An elaboration reports exactly what the rules of scope find, and constrains every use of a name
against the placeholder of the binder that they select. `Finds i m fs P` says so of a step `m`
that is taken after inference has reached `i`, with the findings `fs`; `P` is what else holds
afterwards. With the simulation of the stack by the environment this carries over to the walk.
-/

namespace Llama.Proofs

open Analyzer

variable {α β : Type} {i j : Inference} {site : Site} {P : α → Inference → Prop} {m : Analyzer α}
  {f : α → Analyzer β} {fs : List Finding} {Q : β → Inference → Prop} {node : NodeId}
  {hint : Option Ty} {symbol : Symbol} {b : Binding} {env scope : Env}
  {bindings earlier : List Binding} {name : String}

def Finds (i : Inference) (m : Analyzer α) (fs : List Finding) (P : α → Inference → Prop) :
    Prop :=
  ∀ w, Grows i w.inference →
    Grows w.inference (m w).2.inference ∧
    (m w).2.reports.toList.filter isScoping =
      w.reports.toList.filter isScoping ++ fs.filterMap Finding.report? ∧
    (∀ u, Finding.use u ∈ fs → u.Constrained (m w).2.inference) ∧
    P (m w).1 (m w).2.inference

lemma Grows.map_primary? (hij : Grows i j) {nodes : List NodeId} {tags : List Tag}
    (h : nodes.map i.primary? = tags.map some) : nodes.map j.primary? = tags.map some := by
  rw [← h]
  refine List.map_congr_left fun node hnode => ?_
  have hmem : i.primary? node ∈ nodes.map i.primary? := List.mem_map_of_mem hnode
  rw [h] at hmem
  obtain ⟨tag, -, htag⟩ := List.mem_map.mp hmem
  rw [← htag]
  exact hij.primary? htag.symm

lemma HasTemp.mono {tag : Tag} {binder : Binder} (hij : Grows i j) (h : HasTemp i site tag binder) :
    HasTemp j site tag binder := by
  cases binder with
  | node id => exact hij.primary? h
  | counter loop => exact hij.temps.subset h
  | library ty => exact hij.temps.subset h

lemma Said.mono {tag : Tag} {form : UseForm} (hij : Grows i j) (h : Said i site tag form) :
    Said j site tag form := by
  cases form with
  | var =>
    obtain ⟨t, ht, hsame⟩ := h
    exact ⟨t, hij.primary? ht, hij.constraints.subset hsame⟩
  | call args =>
    obtain ⟨t, ts, ht, hargs, hspec⟩ := h
    exact ⟨t, ts, hij.primary? ht, hij.map_primary? hargs, hij.constraints.subset hspec⟩
  | element dims =>
    obtain ⟨e, he, hspec⟩ := h
    exact ⟨e, hij.temps.subset he, hij.constraints.subset hspec⟩
  | dim => exact hij.constraints.subset h

lemma Use.Constrained.mono {u : Use} (hij : Grows i j) (h : u.Constrained i) :
    u.Constrained j := by
  intro b hb
  obtain ⟨tag, htemp, hsaid⟩ := h b hb
  exact ⟨tag, htemp.mono hij, hsaid.mono hij⟩

lemma finds_pure {a : α} (h : ∀ j, Grows i j → P a j) : Finds i (pure a) [] P := by
  intro w hw
  exact ⟨.refl _, (List.append_nil _).symm, nofun, h _ hw⟩

lemma finds_bind {gs : List Finding} (hm : Finds i m fs P)
    (hf : ∀ a j, Grows i j → P a j → Finds j (f a) gs Q) : Finds i (m >>= f) (fs ++ gs) Q := by
  intro w hw
  obtain ⟨hgrows, hreports, huses, hP⟩ := hm w hw
  obtain ⟨hgrows', hreports', huses', hQ⟩ :=
    hf (m w).1 (m w).2.inference (hw.trans hgrows) hP (m w).2 (.refl _)
  rw [bind_run]
  refine ⟨hgrows.trans hgrows', ?_, ?_, hQ⟩
  · rw [hreports', hreports, List.filterMap_append, List.append_assoc]
  · intro u hu
    rcases List.mem_append.mp hu with hfirst | hlater
    · exact (huses u hfirst).mono hgrows'
    · exact huses' u hlater

/-- The last step with findings. -/
lemma finds_bind_last (hm : Finds i m fs P) (hf : ∀ a j, Grows i j → P a j → Finds j (f a) [] Q) :
    Finds i (m >>= f) fs Q := by
  have h := finds_bind hm hf
  rw [List.append_nil] at h
  exact h

/-- A step without findings. -/
lemma finds_plain (hm : Plain false m) (hP : ∀ w, P (m w).1 (m w).2.inference) :
    Finds i m [] P := by
  intro w _
  refine ⟨(hm.extends_run w).inference, ?_, nofun, hP w⟩
  rw [hm.quiet rfl w]
  exact (List.append_nil _).symm

lemma finds_plain_bind (hm : Plain false m) (hP : ∀ w, P (m w).1 (m w).2.inference)
    (hf : ∀ a j, Grows i j → P a j → Finds j (f a) fs Q) : Finds i (m >>= f) fs Q :=
  finds_bind (finds_plain hm hP) hf

lemma finds_skip (hm : Plain false m) (hf : ∀ a j, Grows i j → Finds j (f a) fs Q) :
    Finds i (m >>= f) fs Q :=
  finds_plain_bind (P := fun _ _ => True) hm (fun _ => trivial) fun a j hij _ => hf a j hij

lemma finds_tempFor {f : Tag → Analyzer β}
    (hf : ∀ t j, Grows i j → j.primary? node = some t → Finds j (f t) fs Q) :
    Finds i (tempFor node hint >>= f) fs Q :=
  finds_plain_bind (.tempFor node hint) (fun w => tempFor_primary? w.inference node hint) hf

/-- A node that answers with the placeholder made for it. -/
lemma finds_node {f : Tag → Analyzer Tag}
    (hf : ∀ t j, Grows i j → j.primary? node = some t → Finds j (f t) fs fun t' _ => t' = t) :
    Finds i (tempFor node hint >>= f) fs fun t j => j.primary? node = some t := by
  refine finds_tempFor fun t j hij ht w hw => ?_
  obtain ⟨hgrows, hreports, huses, hanswer⟩ := hf t j hij ht w hw
  refine ⟨hgrows, hreports, huses, ?_⟩
  rw [hanswer]
  exact (hw.trans hgrows).primary? ht

lemma mem_constrain (i : Inference) (c : Constraint) :
    c ∈ (i.constrain c).constraints.toList := by
  simp [Inference.constrain]

lemma finds_aux {f : Tag → Analyzer β}
    (hf : ∀ t j, Grows i j → ⟨t, node, hint, false⟩ ∈ j.temps.toList → Finds j (f t) fs Q) :
    Finds i (aux node hint >>= f) fs Q := by
  refine finds_plain_bind (.aux node hint) (fun w => ?_) hf
  have htemps := newTemp_temps w.inference node hint false
  have hmem : Temp.mk w.inference.next node hint false ∈
      (w.inference.newTemp node hint false).2.temps.toList := by simp [htemps]
  exact hmem

/-- The placeholder of a symbol is that of a binder. -/
def Stands (i : Inference) (symbol : Symbol) : Binder → Prop
  | .node id => ∃ tag, symbol.temp = some tag ∧ i.primary? id = some tag
  | .counter loop => ∃ tag, symbol.temp = some tag ∧ ⟨tag, loop, some .int, false⟩ ∈ i.temps.toList
  | .library ty => symbol.temp = none ∧ symbol.ty = some ty

structure Means (i : Inference) (symbol : Symbol) (b : Binding) : Prop where
  name : symbol.name = b.name
  span : symbol.span = b.span
  stands : Stands i symbol b.binder

/-- Every name is bound to the same on both sides. -/
def Matches (i : Inference) (env : Env) (bindings : List Binding) : Prop :=
  ∀ name, Option.Rel (Means i) (Env.lookup? env name) (findBinding bindings name)

lemma Means.mono (hij : Grows i j) (h : Means i symbol b) : Means j symbol b := by
  refine ⟨h.name, h.span, ?_⟩
  have hstands := h.stands
  cases hb : b.binder with
  | node id =>
    rw [hb] at hstands
    obtain ⟨tag, htemp, htag⟩ := hstands
    exact ⟨tag, htemp, hij.primary? htag⟩
  | counter loop =>
    rw [hb] at hstands
    obtain ⟨tag, htemp, htag⟩ := hstands
    exact ⟨tag, htemp, hij.temps.subset htag⟩
  | library ty =>
    rw [hb] at hstands
    exact hstands

lemma Matches.of_none (h : Matches i env bindings) (hnone : Env.lookup? env name = none) :
    findBinding bindings name = none := by
  have hrel := h name
  rw [hnone] at hrel
  generalize findBinding bindings name = b at hrel ⊢
  cases hrel
  rfl

lemma Matches.of_some (h : Matches i env bindings) (hsome : Env.lookup? env name = some symbol) :
    ∃ b, findBinding bindings name = some b ∧ Means i symbol b := by
  have hrel := h name
  rw [hsome] at hrel
  generalize findBinding bindings name = b at hrel ⊢
  cases hrel with
  | some hmeans => exact ⟨_, rfl, hmeans⟩

lemma Matches.mono (hij : Grows i j) (h : Matches i env bindings) : Matches j env bindings := by
  intro name
  have hname := h name
  generalize Env.lookup? env name = symbol, findBinding bindings name = b at hname ⊢
  cases hname with
  | none => exact .none
  | some hmeans => exact .some (hmeans.mono hij)

lemma matches_nil : Matches i [] [] := fun _ => .none

lemma matches_singleton (h : Means i symbol b) : Matches i [symbol] [b] := by
  intro name
  unfold Env.lookup? findBinding
  by_cases hname : symbol.name = name
  · have hb : b.name = name := h.name ▸ hname
    rw [List.find?_cons_of_pos (by simpa using hname), List.find?_cons_of_pos (by simpa using hb)]
    exact .some h
  · have hb : ¬b.name = name := h.name ▸ hname
    rw [List.find?_cons_of_neg (by simpa using hname), List.find?_cons_of_neg (by simpa using hb)]
    exact .none

lemma Matches.append {env' : Env} {bs bs' : List Binding} (h : Matches i env bs)
    (h' : Matches i env' bs') : Matches i (env ++ env') (bs ++ bs') := by
  intro name
  have hname := h name
  have henv : Env.lookup? (env ++ env') name =
      (Env.lookup? env name).or (Env.lookup? env' name) := List.find?_append
  have hbs : findBinding (bs ++ bs') name =
      (findBinding bs name).or (findBinding bs' name) := List.find?_append
  rw [henv, hbs]
  generalize Env.lookup? env name = symbol, findBinding bs name = b at hname ⊢
  cases hname with
  | none => exact h' name
  | some hmeans => exact .some hmeans

lemma matches_library : Matches i Library.symbols libraryBindings := by
  unfold Library.symbols libraryBindings
  induction Library.signatures with
  | nil => exact matches_nil
  | cons s signatures ih =>
    have hfirst : Means i ⟨s.1, .library, some s.2, none, Span.origin⟩
        ⟨s.1, Span.origin, .library s.2⟩ := ⟨rfl, rfl, rfl, rfl⟩
    exact (matches_singleton hfirst).append ih

lemma finds_declare (hmatch : Matches i scope earlier) (hmeans : Means i symbol b) :
    Finds i (declare scope symbol) (takenFrom earlier [b])
      (fun scope' j => Matches j scope' (earlier ++ [b])) := by
  intro w hw
  have hall := (hmatch.append (matches_singleton hmeans)).mono hw
  cases hscope : Env.lookup? scope symbol.name with
  | none =>
    have hfound := hmatch.of_none hscope
    rw [hmeans.name] at hfound
    have hrun : declare scope symbol w = (scope ++ [symbol], w) := by
      unfold declare
      rw [hscope]
      rfl
    rw [hrun]
    exact ⟨.refl _, by simp [takenFrom, hfound], by simp [takenFrom, hfound], hall⟩
  | some previous =>
    obtain ⟨first, hfound, hfirst⟩ := hmatch.of_some hscope
    rw [hmeans.name] at hfound
    let r : Report := .duplicateName ⟨b.name, b.span, first.span⟩
    have hrun : declare scope symbol w = (scope, { w with reports := w.reports.push r }) := by
      have hr : r = .duplicateName ⟨symbol.name, symbol.span, previous.span⟩ := by
        rw [hmeans.name, hmeans.span, hfirst.span]
      unfold declare
      rw [hscope, hr]
      rfl
    rw [hrun]
    refine ⟨.refl _, ?_, by simp [takenFrom, hfound], fun name => ?_⟩
    · simp [takenFrom, hfound, isScoping, Finding.report?, r]
    · rw [← lookup?_append_of_found hscope name]
      exact hall name

/-- A name that is in scope is given the placeholder of its binder. -/
lemma resolveUse_run {w : Walk} (site : Site) (hfound : Env.lookup? env name = some symbol)
    (hmeans : Means w.inference symbol b) :
    ∃ tag v, resolveUse env name site w = (some tag, v) ∧ Grows w.inference v.inference ∧
      v.reports = w.reports ∧ HasTemp v.inference site tag b.binder := by
  obtain ⟨-, -, hstands⟩ := hmeans
  unfold resolveUse
  rw [hfound]
  obtain ⟨name, kind, ty, temp, span⟩ := symbol
  cases hb : b.binder with
  | node id =>
    rw [hb] at hstands
    obtain ⟨tag, rfl, htag⟩ := hstands
    exact ⟨tag, w, rfl, .refl _, rfl, htag⟩
  | counter loop =>
    rw [hb] at hstands
    obtain ⟨tag, rfl, htag⟩ := hstands
    exact ⟨tag, w, rfl, .refl _, rfl, htag⟩
  | library ty =>
    rw [hb] at hstands
    obtain ⟨rfl, rfl⟩ := hstands
    refine ⟨_, _, rfl, .newTemp _ site.id (some ty) false, rfl, ?_⟩
    have htemps := newTemp_temps w.inference site.id (some ty) false
    have hmem := List.mem_append_right w.inference.temps.toList
      (List.mem_cons_self (a := Temp.mk w.inference.next site.id (some ty) false) (l := []))
    rw [← htemps] at hmem
    exact hmem

/-- A use of a name is reported or constrained, as the rules of scope demand. -/
lemma finds_constrainUse {form : UseForm} {step : Tag → Analyzer Unit}
    (hmatch : Matches i env bindings) (hplain : ∀ tag, Plain false (step tag))
    (hsaid : ∀ tag w, Grows i w.inference → Said (step tag w).2.inference site tag form) :
    Finds i (constrainUse env name site step) [useFinding site name form bindings]
      (fun _ _ => True) := by
  intro w hw
  cases hlookup : Env.lookup? env name with
  | none =>
    have hfound := hmatch.of_none hlookup
    let r : Report := .semantic (.unknownIdentifier name site.span)
    have hrun : constrainUse env name site step w =
        ((), { w with reports := w.reports.push r }) := by
      unfold constrainUse resolveUse
      rw [hlookup]
      rfl
    rw [hrun]
    refine ⟨.refl _, ?_, ?_, trivial⟩
    · simp [useFinding, hfound, isScoping, Finding.report?, r]
    · intro u hu
      have hu' : u = ⟨site, name, form, none⟩ := by simpa [useFinding, hfound] using hu
      subst hu'
      intro b hb
      cases hb
  | some symbol =>
    obtain ⟨b, hfound, hmeans⟩ := (hmatch.mono hw).of_some hlookup
    obtain ⟨tag, v, hresolve, hgrows, hreports, htemp⟩ := resolveUse_run site hlookup hmeans
    have hrun : constrainUse env name site step w = step tag v := by
      unfold constrainUse
      rw [bind_run, hresolve]
      rfl
    have hstep := ((hplain tag).extends_run v).inference
    rw [hrun]
    refine ⟨hgrows.trans hstep, ?_, ?_, trivial⟩
    · rw [(hplain tag).quiet rfl v, hreports]
      simp [useFinding, hfound, Finding.report?]
    · intro u hu
      have hu' : u = ⟨site, name, form, some b⟩ := by simpa [useFinding, hfound] using hu
      subst hu'
      intro b' hb'
      obtain rfl : b = b' := Option.some.inj hb'
      exact ⟨tag, htemp.mono hstep, hsaid tag v (hw.trans hgrows)⟩

lemma takenFrom_append (earlier bs bs' : List Binding) :
    takenFrom earlier (bs ++ bs') =
      takenFrom earlier bs ++ takenFrom (earlier ++ bs) bs' := by
  induction bs generalizing earlier with
  | nil => simp [takenFrom]
  | cons b bs ih => simp [takenFrom, ih]

lemma takenFrom_cons (earlier : List Binding) (b : Binding) (bs : List Binding) :
    takenFrom earlier (b :: bs) = takenFrom earlier [b] ++ takenFrom (earlier ++ [b]) bs :=
  takenFrom_append earlier [b] bs

/-- A pattern binds its variables one after the other. -/
def PatternFinds (p : Pattern) : Prop :=
  ∀ i scope earlier, Matches i scope earlier →
    Finds i (elaboratePattern p scope) (takenFrom earlier (siteBindings p.bindings))
      (fun r j => Matches j r.2 (earlier ++ siteBindings p.bindings))

lemma finds_patterns {ps : List Pattern} (h : ∀ p ∈ ps, PatternFinds p)
    (hmatch : Matches i scope earlier) :
    Finds i (elaboratePatterns ps scope)
      (takenFrom earlier (siteBindings (Pattern.bindingsOfList ps)))
      (fun r j => Matches j r.2 (earlier ++ siteBindings (Pattern.bindingsOfList ps))) := by
  induction ps generalizing i scope earlier with
  | nil =>
    refine finds_pure fun j hij => ?_
    rw [Pattern.bindingsOfList, siteBindings, List.map_nil, List.append_nil]
    exact hmatch.mono hij
  | cons p ps ih =>
    rw [Pattern.bindingsOfList, siteBindings, List.map_append, takenFrom_append,
      ← List.append_assoc]
    refine finds_bind (h p (by simp) i scope earlier hmatch) fun first j _ hfirst => ?_
    refine finds_bind_last (ih (fun q hq => h q (by simp [hq])) hfirst) fun others k _ hall => ?_
    exact finds_pure fun l hkl => hall.mono hkl

lemma pattern_finds : PatternCases PatternFinds where
  constr _ _ _ ih i scope earlier hmatch := by
    refine finds_tempFor fun p j hij _ => ?_
    refine finds_bind_last (finds_patterns ih (hmatch.mono hij)) fun r k _ hall => ?_
    refine finds_skip (plain_construct _ _ _ _) fun _ l hkl => ?_
    exact finds_pure fun m hlm => hall.mono (hkl.trans hlm)
  const _ _ i scope earlier hmatch := by
    refine finds_tempFor fun p j hij _ => finds_skip (plain_spec _ _) fun _ k hjk => ?_
    refine finds_pure fun l hkl => ?_
    rw [Pattern.bindings, siteBindings, List.map_nil, List.append_nil]
    exact hmatch.mono (hij.trans (hjk.trans hkl))
  var _ _ i scope earlier hmatch := by
    refine finds_tempFor fun p j hij hp => ?_
    refine finds_bind_last (finds_declare (hmatch.mono hij) ⟨rfl, rfl, p, rfl, hp⟩)
      fun scope' k _ hall => ?_
    exact finds_pure fun l hkl => hall.mono hkl

lemma finds_declareDefs (ds : List Def) (hmatch : Matches i scope earlier) :
    Finds i (declareDefs ds scope) (takenFrom earlier (defBindings ds))
      (fun scope' j => Matches j scope' (earlier ++ defBindings ds)) := by
  induction ds generalizing i scope earlier with
  | nil =>
    refine finds_pure fun j hij => ?_
    rw [defBindings, List.map_nil, List.append_nil]
    exact hmatch.mono hij
  | cons d ds ih =>
    have hsplit : earlier ++ defBindings (d :: ds) =
        earlier ++ [⟨d.name, d.site.span, .node d.site.id⟩] ++ defBindings ds := by
      simp [defBindings]
    rw [hsplit, defBindings, List.map_cons, takenFrom_cons]
    refine finds_tempFor fun temp j hij htemp => ?_
    exact finds_bind (finds_declare (hmatch.mono hij) ⟨rfl, rfl, temp, rfl, htemp⟩)
      fun scope' k _ hall => ih hall

lemma finds_declareParams {function : String} (ps : List Param) (hmatch : Matches i scope earlier) :
    Finds i (declareParams function ps scope) (takenFrom earlier (paramBindings ps))
      (fun r j => Matches j r.2 (earlier ++ paramBindings ps)) := by
  induction ps generalizing i scope earlier with
  | nil =>
    refine finds_pure fun j hij => ?_
    rw [paramBindings, List.map_nil, List.append_nil]
    exact hmatch.mono hij
  | cons p ps ih =>
    have hsplit : earlier ++ paramBindings (p :: ps) =
        earlier ++ [⟨p.name, p.site.span, .node p.site.id⟩] ++ paramBindings ps := by
      simp [paramBindings]
    rw [hsplit, paramBindings, List.map_cons, takenFrom_cons]
    refine finds_tempFor fun t j hij ht => ?_
    refine finds_skip (plain_checkParam _ _) fun _ k hjk => ?_
    have hmeans : Means k ⟨p.name, .parameter, p.ty, some t, p.site.span⟩
        ⟨p.name, p.site.span, .node p.site.id⟩ := ⟨rfl, rfl, t, rfl, hjk.primary? ht⟩
    refine finds_bind (finds_declare (hmatch.mono (hij.trans hjk)) hmeans)
      fun scope' l _ hall => ?_
    exact finds_bind_last (ih hall) fun others m _ hothers =>
      finds_pure fun n hmn => hothers.mono hmn

/-- An expression has the findings of the rules of scope, and its placeholder is the primary one
of its node. -/
def ExprFinds (e : Expr) : Prop :=
  ∀ i env bindings, Matches i env bindings →
    Finds i (elaborateExpr e env) (exprFindings e bindings)
      (fun t j => j.primary? e.site.id = some t)

def DefFinds (d : Def) : Prop :=
  ∀ i env bindings, Matches i env bindings →
    Finds i (elaborateDef d env) (defFindings d bindings) (fun _ _ => True)

variable {env : Env} {bindings : List Binding}

lemma finds_exprs {es : List Expr} (h : ∀ e ∈ es, ExprFinds e)
    (hmatch : Matches i env bindings) :
    Finds i (elaborateExprs es env) (exprListFindings es bindings)
      (fun ts j => (es.map fun e => e.site.id).map j.primary? = ts.map some) := by
  induction es generalizing i with
  | nil => exact finds_pure fun _ _ => rfl
  | cons e es ih =>
    refine finds_bind (h e (by simp) i env bindings hmatch) fun first j hij hfirst => ?_
    refine finds_bind_last (ih (fun x hx => h x (by simp [hx])) (hmatch.mono hij))
      fun others k hjk hothers => ?_
    refine finds_pure fun l hkl => ?_
    rw [List.map_cons, List.map_cons, List.map_cons, hkl.map_primary? hothers]
    rw [(hjk.trans hkl).primary? hfirst]

lemma finds_sizes {es : List Expr} (h : ∀ e ∈ es, ExprFinds e)
    (hmatch : Matches i env bindings) :
    Finds i (elaborateSizes es env) (exprListFindings es bindings) (fun _ _ => True) := by
  induction es generalizing i with
  | nil => exact finds_pure fun _ _ => trivial
  | cons e es ih =>
    refine finds_bind (h e (by simp) i env bindings hmatch) fun size j hij _ => ?_
    refine finds_skip (plain_spec _ _) fun _ k hjk => ?_
    exact ih (fun x hx => h x (by simp [hx])) (hmatch.mono (hij.trans hjk))

lemma finds_clauses {cs : List Clause} (h : ∀ c ∈ cs, ExprFinds c.body)
    (hmatch : Matches i env bindings) (result scrutinee : Tag) :
    Finds i (elaborateClauses cs result scrutinee env) (clauseListFindings cs bindings)
      (fun _ _ => True) := by
  induction cs generalizing i with
  | nil => exact finds_pure fun _ _ => trivial
  | cons c cs ih =>
    obtain ⟨site, pattern, body⟩ := c
    refine finds_bind (pattern_finds.pattern pattern i [] [] matches_nil) fun p j hij hp => ?_
    refine finds_skip (plain_same _ _) fun _ k hjk => ?_
    have hbody := (hp.mono hjk).append (hmatch.mono (hij.trans hjk))
    refine finds_bind (h _ List.mem_cons_self k _ _ hbody) fun b l hkl _ => ?_
    refine finds_skip (plain_same _ _) fun _ m hlm => ?_
    exact ih (fun x hx => h x (by simp [hx]))
      (hmatch.mono (hij.trans (hjk.trans (hkl.trans hlm))))

lemma finds_defs {ds : List Def} (h : ∀ d ∈ ds, DefFinds d) (hmatch : Matches i env bindings) :
    Finds i (elaborateDefs ds env) (defListFindings ds bindings) (fun _ _ => True) := by
  induction ds generalizing i with
  | nil => exact finds_pure fun _ _ => trivial
  | cons d ds ih =>
    refine finds_bind (h d (by simp) i env bindings hmatch) fun _ j hij _ => ?_
    exact ih (fun x hx => h x (by simp [hx])) (hmatch.mono hij)

lemma finds_group {g : LetGroup} (h : ∀ d ∈ g.defs, DefFinds d)
    (hmatch : Matches i env bindings) :
    Finds i (elaborateGroup g env) (groupFindings g bindings)
      (fun scope j => Matches j scope (defBindings g.defs)) := by
  obtain ⟨site, isRec, ds⟩ := g
  cases isRec with
  | true =>
    refine finds_bind (finds_declareDefs ds matches_nil) fun scope j hij hscope => ?_
    refine finds_bind_last (finds_defs h (hscope.append (hmatch.mono hij))) fun _ k hjk _ => ?_
    exact finds_pure fun l hkl => hscope.mono (hjk.trans hkl)
  | false =>
    exact finds_bind (finds_defs h hmatch) fun _ j _ _ => finds_declareDefs ds matches_nil

/-- Every expression and every definition has the findings of the rules of scope. -/
lemma tree_finds : TreeCases ExprFinds DefFinds where
  binary _ _ _ _ hl hr i env bindings hmatch := by
    refine finds_node fun t j hij _ => ?_
    refine finds_bind (hl j env bindings (hmatch.mono hij)) fun l k hjk _ => ?_
    refine finds_bind_last (hr k env bindings (hmatch.mono (hij.trans hjk))) fun r l hkl _ => ?_
    exact finds_skip (plain_relate _ _ _ _) fun _ _ _ => finds_pure fun _ _ => rfl
  unary _ _ _ h i env bindings hmatch := by
    refine finds_node fun t j hij _ => ?_
    refine finds_bind_last (h j env bindings (hmatch.mono hij)) fun o k _ _ => ?_
    exact finds_skip (plain_relateUnary _ _ _) fun _ _ _ => finds_pure fun _ _ => rfl
  construct _ _ _ h i env bindings hmatch := by
    refine finds_node fun t j hij _ => ?_
    refine finds_bind_last (finds_exprs h (hmatch.mono hij)) fun ts k _ _ => ?_
    exact finds_skip (plain_construct _ _ _ _) fun _ _ _ => finds_pure fun _ _ => rfl
  element site name indices h i env bindings hmatch := by
    refine finds_node fun t j hij _ => ?_
    refine finds_bind (finds_sizes h (hmatch.mono hij)) fun _ k hjk _ => ?_
    refine finds_aux fun e l hkl he => ?_
    have hsaid : ∀ tag w, Grows l w.inference →
        Said (spec tag (.array (.temp e) indices.length) w).2.inference site tag
          (.element indices.length) :=
      fun tag w hw => ⟨e, hw.temps.subset he, mem_constrain _ _⟩
    refine finds_bind_last (finds_constrainUse (hmatch.mono (hij.trans (hjk.trans hkl)))
      (fun _ => plain_spec _ _) hsaid) fun _ _ _ _ => ?_
    exact finds_skip (plain_spec _ _) fun _ _ _ => finds_pure fun _ _ => rfl
  const _ _ i env bindings _ := by
    refine finds_node fun t j _ _ => ?_
    exact finds_skip (plain_spec _ _) fun _ _ _ => finds_pure fun _ _ => rfl
  constr _ _ i env bindings _ := by
    refine finds_node fun t j _ _ => ?_
    exact finds_skip (plain_construct _ _ _ _) fun _ _ _ => finds_pure fun _ _ => rfl
  var site name i env bindings hmatch := by
    refine finds_node fun t j hij ht => ?_
    have hsaid : ∀ tag w, Grows j w.inference → Said (same t tag w).2.inference site tag .var :=
      fun tag w hw => ⟨t, hw.primary? ht, mem_constrain _ _⟩
    exact finds_bind_last (finds_constrainUse (hmatch.mono hij) (fun _ => plain_same _ _) hsaid)
      fun _ _ _ _ => finds_pure fun _ _ => rfl
  delete _ _ h i env bindings hmatch := by
    refine finds_node fun t j hij _ => ?_
    refine finds_bind_last (h j env bindings (hmatch.mono hij)) fun e k _ _ => ?_
    refine finds_skip (.aux _ _) fun _ _ _ => finds_skip (plain_spec _ _) fun _ _ _ => ?_
    exact finds_skip (plain_spec _ _) fun _ _ _ => finds_pure fun _ _ => rfl
  dim site _ name i env bindings hmatch := by
    refine finds_node fun t j hij _ => ?_
    refine finds_skip (plain_checkDimension _ _ _) fun _ k hjk => ?_
    have hsaid : ∀ tag w, Grows k w.inference →
        Said (oneOf tag [.array] w).2.inference site tag .dim :=
      fun tag w _ => mem_constrain _ _
    refine finds_bind_last (finds_constrainUse (hmatch.mono (hij.trans hjk))
      (fun _ => plain_oneOf _ _) hsaid) fun _ _ _ _ => ?_
    exact finds_skip (plain_spec _ _) fun _ _ _ => finds_pure fun _ _ => rfl
  forLoop site counter _ _ _ _ hf hl hb i env bindings hmatch := by
    refine finds_node fun t j hij _ => ?_
    refine finds_bind (hf j env bindings (hmatch.mono hij)) fun f k hjk _ => ?_
    have hk := hij.trans hjk
    refine finds_bind (hl k env bindings (hmatch.mono hk)) fun l l' hkl _ => ?_
    refine finds_skip (plain_spec _ _) fun _ m hlm => finds_skip (plain_spec _ _) fun _ n hmn => ?_
    refine finds_aux fun c o hno hc => ?_
    have hcounter : Means o ⟨counter, .var, some .int, some c, site.span⟩
        ⟨counter, site.span, .counter site.id⟩ := ⟨rfl, rfl, c, rfl, hc⟩
    have ho := hk.trans (hkl.trans (hlm.trans (hmn.trans hno)))
    have hbody := (matches_singleton hcounter).append (hmatch.mono ho)
    refine finds_bind_last (hb o _ _ hbody) fun b _ _ _ => ?_
    refine finds_skip (plain_spec _ _) fun _ _ _ => finds_skip (plain_spec _ _) fun _ _ _ => ?_
    exact finds_pure fun _ _ => rfl
  call site name args h i env bindings hmatch := by
    refine finds_node fun t j hij ht => ?_
    refine finds_bind (finds_exprs h (hmatch.mono hij)) fun ts k hjk hts => ?_
    have hsaid : ∀ tag w, Grows k w.inference →
        Said (spec tag (Term.curried (ts.map .temp) (.temp t)) w).2.inference site tag
          (.call (args.map fun e => e.site.id)) :=
      fun tag w hw => ⟨t, ts, (hjk.trans hw).primary? ht, hw.map_primary? hts, mem_constrain _ _⟩
    exact finds_bind_last (finds_constrainUse (hmatch.mono (hij.trans hjk))
      (fun _ => plain_spec _ _) hsaid) fun _ _ _ _ => finds_pure fun _ _ => rfl
  letIn _ _ _ hg hb i env bindings hmatch := by
    refine finds_node fun t j hij _ => ?_
    refine finds_bind (finds_group hg (hmatch.mono hij)) fun scope k hjk hscope => ?_
    have hbody := hscope.append (hmatch.mono (hij.trans hjk))
    refine finds_bind_last (hb k _ _ hbody) fun b _ _ _ => ?_
    exact finds_skip (plain_same _ _) fun _ _ _ => finds_pure fun _ _ => rfl
  ifThen _ _ _ hc hp i env bindings hmatch := by
    refine finds_node fun t j hij _ => ?_
    refine finds_bind (hc j env bindings (hmatch.mono hij)) fun c k hjk _ => ?_
    refine finds_skip (plain_spec _ _) fun _ l hkl => ?_
    have hl := hmatch.mono (hij.trans (hjk.trans hkl))
    refine finds_bind_last (hp l env bindings hl) fun p _ _ _ => ?_
    refine finds_skip (plain_spec _ _) fun _ _ _ => finds_skip (plain_spec _ _) fun _ _ _ => ?_
    exact finds_pure fun _ _ => rfl
  ifElse _ _ _ _ hc hp hn i env bindings hmatch := by
    refine finds_node fun t j hij _ => ?_
    refine finds_bind (hc j env bindings (hmatch.mono hij)) fun c k hjk _ => ?_
    refine finds_skip (plain_spec _ _) fun _ l hkl => ?_
    have hl := hij.trans (hjk.trans hkl)
    refine finds_bind (hp l env bindings (hmatch.mono hl)) fun p m hlm _ => ?_
    refine finds_bind_last (hn m env bindings (hmatch.mono (hl.trans hlm))) fun n _ _ _ => ?_
    refine finds_skip (plain_same _ _) fun _ _ _ => finds_skip (plain_same _ _) fun _ _ _ => ?_
    exact finds_pure fun _ _ => rfl
  matchWith _ _ _ hs hc i env bindings hmatch := by
    refine finds_node fun t j hij _ => ?_
    refine finds_bind (hs j env bindings (hmatch.mono hij)) fun s k hjk _ => ?_
    refine finds_bind_last (finds_clauses hc (hmatch.mono (hij.trans hjk)) t s) fun _ _ _ _ => ?_
    exact finds_pure fun _ _ => rfl
  new _ _ i env bindings _ := by
    refine finds_node fun t j _ _ => finds_skip (.validate _ _ _) fun _ _ _ => ?_
    exact finds_skip (plain_spec _ _) fun _ _ _ => finds_pure fun _ _ => rfl
  whileLoop _ _ _ hc hb i env bindings hmatch := by
    refine finds_node fun t j hij _ => ?_
    refine finds_bind (hc j env bindings (hmatch.mono hij)) fun c k hjk _ => ?_
    refine finds_bind_last (hb k env bindings (hmatch.mono (hij.trans hjk))) fun b _ _ _ => ?_
    refine finds_skip (plain_spec _ _) fun _ _ _ => finds_skip (plain_spec _ _) fun _ _ _ => ?_
    exact finds_skip (plain_spec _ _) fun _ _ _ => finds_pure fun _ _ => rfl
  function _ _ params _ _ hb i env bindings hmatch := by
    refine finds_skip (plain_forM (fun _ => plain_validateOption _ _ _) _) fun _ j hij => ?_
    refine finds_skip (plain_validateResult _ _ _) fun _ k hjk => ?_
    refine finds_skip (.tempFor _ _) fun f l hkl => ?_
    refine finds_bind (finds_declareParams params matches_nil) fun ps m hlm hps => ?_
    have hbody := hps.append (hmatch.mono (hij.trans (hjk.trans (hkl.trans hlm))))
    refine finds_bind_last (hb m _ _ hbody) fun b _ _ _ => ?_
    refine finds_skip (plain_forSome fun _ => plain_spec _ _) fun _ _ _ => ?_
    exact finds_plain (plain_spec _ _) fun _ => trivial
  constant _ _ _ _ hb i env bindings hmatch := by
    refine finds_skip (plain_validateOption _ _ _) fun _ j hij => ?_
    refine finds_skip (.tempFor _ _) fun c k hjk => ?_
    refine finds_bind_last (hb k env bindings (hmatch.mono (hij.trans hjk))) fun b _ _ _ => ?_
    exact finds_plain (plain_same _ _) fun _ => trivial
  mutableVar _ _ _ i env bindings _ := by
    refine finds_skip (.tempFor _ _) fun _ _ _ => ?_
    exact finds_plain (plain_validateMutable _ _ _) fun _ => trivial
  mutableArray _ _ _ _ hd i env bindings hmatch := by
    refine finds_bind_last (finds_sizes hd hmatch) fun _ _ _ _ => ?_
    refine finds_skip (.tempFor _ _) fun _ _ _ => ?_
    exact finds_plain (plain_validateMutable _ _ _) fun _ => trivial

lemma finds_typeGroup (group : TypeGroup) :
    Finds i group.analyze [] (fun _ _ => True) := by
  intro w _
  rw [typeGroup_run]
  refine ⟨.refl _, ?_, nofun, trivial⟩
  have hnone : ((w.types.enter group).2.map Report.badTypeDefinition).filter isScoping = [] := by
    rw [List.filter_eq_nil_iff]
    intro r hr
    obtain ⟨e, -, rfl⟩ := List.mem_map.mp hr
    simp [isScoping]
  simp [hnone]

lemma finds_definitions (ds : List Definition) (hmatch : Matches i env bindings) :
    Finds i (elaborateDefinitions ds env) (definitionListFindings ds bindings)
      (fun _ _ => True) := by
  induction ds generalizing i env bindings with
  | nil => exact finds_pure fun _ _ => trivial
  | cons d ds ih =>
    cases d with
    | lets group =>
      refine finds_bind (finds_group (tree_finds.group group) hmatch) fun scope j hij hscope => ?_
      exact ih (hscope.append (hmatch.mono hij))
    | types group =>
      exact finds_bind (finds_typeGroup group) fun _ j hij _ => ih (hmatch.mono hij)

/-- The checks that were put off report nothing about scopes. -/
lemma conclude_errors_scoping (i : Inference) (solver : Solver) (slots : TypeSlots)
    (types : TypeTable) :
    ((i.conclude solver slots types).errors.map Report.semantic).filter isScoping = [] := by
  rw [List.filter_eq_nil_iff]
  intro r hr
  obtain ⟨e, he, rfl⟩ := List.mem_map.mp hr
  obtain ⟨obligation, -, herror⟩ := List.mem_filterMap.mp he
  unfold Inference.obligationError? at herror
  split at herror
  · cases herror
  · split at herror
    · cases herror
    · cases herror
      simp [isScoping]

/-- Name resolution is lexical scoping. From its stack of scopes the walk does what elaboration
in an environment does, which finds the same whatever stack it is started with. The reports
about scopes are those of the rules of scope, in their order: one for each use of a name that is
not in scope, and one for each binding whose name is taken in its scope. Every other use is
constrained against the placeholder of the binder that the rules select. -/
theorem walk_lexical_scoping (program : Program) (types : TypeTable) (firstTag : Tag)
    (solver : Solver) :
    (∀ stack, program.walk (Walk.initial types firstTag) =
      ((), { (elaborateProgram program { Walk.initial types firstTag with scopes := stack }).2 with
        scopes := SymbolTable.initial })) ∧
    (program.analyze types firstTag solver).2.2.filter isScoping =
      (programFindings program).filterMap Finding.report? ∧
    ∀ u, Finding.use u ∈ programFindings program →
      u.Constrained (collected (program.analyze types firstTag solver).1) := by
  have hruns : ∀ stack, program.walk (Walk.initial types firstTag) =
      ((), { (elaborateProgram program { Walk.initial types firstTag with scopes := stack }).2 with
        scopes := SymbolTable.initial }) := fun stack =>
    runs_program program { Walk.initial types firstTag with scopes := stack }
  obtain ⟨-, hreports, huses, -⟩ := finds_definitions program.definitions matches_library
    (Walk.initial types firstTag) (.refl _)
  refine ⟨hruns, ?_, ?_⟩
  · rw [analyze_reports, List.filter_append, conclude_errors_scoping, List.append_nil]
    exact hreports
  · intro u hu
    rw [collected_analyze]
    exact (huses u hu).mono ⟨List.prefix_refl _, List.prefix_refl _⟩

-- `let f x = x`, where the variable goes back to the parameter.
def identityProgram : Program where
  definitions := [.lets (.mk ⟨4, default⟩ false
    [.function ⟨3, default⟩ "f" [⟨⟨1, default⟩, "x", none⟩] none (.var ⟨2, default⟩ "x")])]
  nodeCount := 5

theorem walk_lexical_scoping_identityProgram :
    let u : Use := ⟨⟨2, default⟩, "x", .var, some ⟨"x", default, .node 1⟩⟩
    Finding.use u ∈ programFindings identityProgram ∧
      u.Constrained
        (collected (identityProgram.analyze TypeTable.initial 1 Solver.unsolved).1) := by
  intro u
  have hu : Finding.use u ∈ programFindings identityProgram := by
    simp [programFindings, identityProgram, u, taken, takenFrom, useFinding, findBinding,
      paramBindings]
  exact ⟨hu,
    (walk_lexical_scoping identityProgram TypeTable.initial 1 Solver.unsolved).2.2 u hu⟩

end Llama.Proofs
