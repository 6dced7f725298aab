import Llama.Proofs.LexicalScoping
import Llama.Proofs.ScopeBalance

/-!
# The variables of a pattern

A pattern is gone through twice: once for the list of its variables, and once by the walk, which
looks up constructors, collects constraints and reports problems on the way. Both visit the
variables in the same order. In a scope of its own a pattern therefore binds the first variable of
each name that the list has, and each further one is reported.
-/

namespace Llama.Proofs

open Analyzer

/-- Walks through a pattern in a scope that is opened for it. -/
def analyzeAfresh (p : Pattern) : Analyzer Tag := do
  openScope
  p.analyze

lemma analyzeAfresh_run (p : Pattern) (w : Walk) :
    analyzeAfresh p w = ((elaboratePattern p [] w).1.1, { (elaboratePattern p [] w).2 with
      scopes := atop w.scopes (elaboratePattern p [] w).1.2 true }) :=
  pattern_runs.pattern p w.scopes [] true w

/-- What a variable of a pattern is bound to once inference has reached `i`: its placeholder is the
primary one of its node. -/
def variableIn (i : Inference) (v : Site × String) : Symbol :=
  ⟨v.2, .var, none, i.primary? v.1.id, v.1.span⟩

/-- The variables are added to a scope as they are listed, and their placeholders are still the
primary ones of their nodes later on. -/
def AddsVariables (p : Pattern) : Prop :=
  ∀ scope w j, Grows (elaboratePattern p scope w).2.inference j →
    (elaboratePattern p scope w).1.2 = (p.bindings.map (variableIn j)).foldl addNew scope ∧
      ∀ v ∈ p.bindings, (j.primary? v.1.id).isSome

lemma patterns_addVariables {ps : List Pattern} (h : ∀ p ∈ ps, AddsVariables p) (scope : Env)
    (w : Walk) {j : Inference} (hj : Grows (elaboratePatterns ps scope w).2.inference j) :
    (elaboratePatterns ps scope w).1.2 =
        ((Pattern.bindingsOfList ps).map (variableIn j)).foldl addNew scope ∧
      ∀ v ∈ Pattern.bindingsOfList ps, (j.primary? v.1.id).isSome := by
  induction ps generalizing scope w with
  | nil => exact ⟨rfl, fun _ hv => absurd hv List.not_mem_nil⟩
  | cons p ps ih =>
    rw [List.forall_mem_cons] at h
    have hplain : ∀ scope', Plain true (elaboratePatterns ps scope') :=
      plain_patterns fun q _ => pattern_plain.pattern q
    have hgrows := ((hplain (elaboratePattern p scope w).1.2).extends_run
      (elaboratePattern p scope w).2).inference
    obtain ⟨hfirst, hprimary⟩ := h.1 scope w j (hgrows.trans hj)
    obtain ⟨hothers, hprimaries⟩ := ih h.2 _ _ hj
    rw [Pattern.bindingsOfList]
    refine ⟨?_, fun v hv => (List.mem_append.mp hv).elim (hprimary v) (hprimaries v)⟩
    rw [List.map_append, List.foldl_append, ← hfirst]
    exact hothers

lemma pattern_addsVariables : PatternCases AddsVariables where
  constr site name args ih scope w j hj := by
    have hconstruct : ∀ target tags, Plain true (construct target name tags site.span) :=
      fun target tags => plain_construct target name tags site.span
    exact patterns_addVariables ih scope (tempFor site.id none w).2
      (((hconstruct _ _).extends_run _).inference.trans hj)
  const site value scope w j hj := ⟨rfl, fun _ hv => absurd hv List.not_mem_nil⟩
  var site name scope w j hj := by
    have hrun : elaboratePattern (.var site name) scope w =
        (((tempFor site.id none w).1,
          (declare scope ⟨name, .var, none, some (tempFor site.id none w).1, site.span⟩
            (tempFor site.id none w).2).1),
          (declare scope ⟨name, .var, none, some (tempFor site.id none w).1, site.span⟩
            (tempFor site.id none w).2).2) := rfl
    rw [hrun, declare_inference] at hj
    have hprimary : j.primary? site.id = some (tempFor site.id none w).1 :=
      hj.primary? (tempFor_primary? w.inference site.id none)
    rw [hrun, declare_fst, Pattern.bindings]
    refine ⟨?_, fun v hv => ?_⟩
    · rw [List.map_singleton, List.foldl_cons, List.foldl_nil, variableIn, hprimary]
    · rw [List.mem_singleton.mp hv, hprimary]
      rfl

/-- The report on a variable that comes after others, if one of these has its name: it names the
first of them. -/
def duplicateAfter (earlier : List (Site × String)) (v : Site × String) : Option DuplicateName :=
  (earlier.find? fun first => first.2 == v.2).map fun first => ⟨v.2, v.1.span, first.1.span⟩

/-- One report for each variable whose name occurs before it. -/
def furtherOccurrences (vars : List (Site × String)) : List DuplicateName :=
  vars.zipIdx.filterMap fun v => duplicateAfter (vars.take v.2) v.1

lemma findBinding_siteBindings (vars : List (Site × String)) (name : String) :
    findBinding (siteBindings vars) name =
      (vars.find? fun v => v.2 == name).map fun v => ⟨v.2, v.1.span, .node v.1.id⟩ :=
  List.find?_map

lemma reports_takenFrom (earlier vars : List (Site × String)) :
    (takenFrom (siteBindings earlier) (siteBindings vars)).filterMap Finding.report? =
      ((vars.zipIdx earlier.length).filterMap fun v =>
        duplicateAfter ((earlier ++ vars).take v.2) v.1).map Report.duplicateName := by
  induction vars generalizing earlier with
  | nil => rfl
  | cons v vars ih =>
    have hmore : siteBindings (earlier ++ [v]) =
        siteBindings earlier ++ [⟨v.2, v.1.span, .node v.1.id⟩] := List.map_append
    have htaken : takenFrom (siteBindings earlier) (siteBindings (v :: vars)) =
        ((findBinding (siteBindings earlier) v.2).map fun previous =>
          Finding.taken ⟨v.2, v.1.span, previous.span⟩).toList ++
        takenFrom (siteBindings (earlier ++ [v])) (siteBindings vars) := by
      rw [hmore]
      rfl
    have htake : (earlier ++ v :: vars).take earlier.length = earlier := List.take_left
    have hrest := ih (earlier ++ [v])
    rw [List.length_append, List.append_assoc] at hrest
    rw [htaken, List.filterMap_append, hrest, findBinding_siteBindings, List.zipIdx_cons,
      List.filterMap_cons, htake, duplicateAfter]
    cases earlier.find? fun first => first.2 == v.2 <;> rfl

lemma reports_taken (vars : List (Site × String)) :
    (taken (siteBindings vars)).filterMap Finding.report? =
      (furtherOccurrences vars).map Report.duplicateName :=
  reports_takenFrom [] vars

/-- The walk adds some reports, and those about scopes are on the variables whose name occurs
before them. -/
lemma elaboratePattern_reports (p : Pattern) (w : Walk) :
    ∃ found, (elaboratePattern p [] w).2.reports.toList = w.reports.toList ++ found ∧
      found.filter isScoping = (furtherOccurrences p.bindings).map .duplicateName := by
  obtain ⟨found, hfound⟩ := ((pattern_plain.pattern p []).extends_run w).reports
  obtain ⟨-, hreports, -⟩ :=
    pattern_finds.pattern p w.inference [] [] matches_nil w (Grows.refl _)
  refine ⟨found, hfound.symm, ?_⟩
  rw [← hfound, List.filter_append] at hreports
  exact (List.append_cancel_left hreports).trans (reports_taken p.bindings)

/-- A pattern binds exactly the variables that it lists. After the walk through a pattern in a scope
of its own, this scope holds, in their order, the first variable of each name, with the primary
placeholder of its node; the scopes below are as before. Besides problems that have nothing to do
with scopes, such as those with constructors, one duplicate is reported for each variable whose name
occurs before it, and the report names the first occurrence. -/
theorem pattern_binds_variables (p : Pattern) (w : Walk) :
    (analyzeAfresh p w).2.scopes =
        atop w.scopes
          (firstOfEachName (p.bindings.map (variableIn (analyzeAfresh p w).2.inference))) true ∧
      (∀ v ∈ p.bindings, ((analyzeAfresh p w).2.inference.primary? v.1.id).isSome) ∧
      ∃ found, (analyzeAfresh p w).2.reports.toList = w.reports.toList ++ found ∧
        found.filter isScoping = (furtherOccurrences p.bindings).map .duplicateName := by
  obtain ⟨hscope, hprimary⟩ := pattern_addsVariables.pattern p [] w _ (Grows.refl _)
  rw [foldl_addNew_nil] at hscope
  rw [analyzeAfresh_run]
  exact ⟨congrArg (fun symbols => atop w.scopes symbols true) hscope, hprimary,
    elaboratePattern_reports p w⟩

-- `Node x (Leaf y) x` where neither constructor is defined.
example :
    let p : Pattern := .constr ⟨4, default⟩ "Node" [.var ⟨0, default⟩ "x",
      .constr ⟨2, default⟩ "Leaf" [.var ⟨1, default⟩ "y"], .var ⟨3, default⟩ "x"]
    let w := (analyzeAfresh p (Walk.initial TypeTable.initial 1)).2
    w.scopes.current.symbols.map Symbol.name = ["x", "y"] ∧
      w.reports.toList = [.semantic (.unknownConstructor "Leaf" default),
        .duplicateName ⟨"x", default, default⟩,
        .semantic (.unknownConstructor "Node" default)] := by
  decide +kernel

end Llama.Proofs
