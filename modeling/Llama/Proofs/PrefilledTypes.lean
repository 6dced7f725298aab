import Llama.Proofs.DefinitionRounds
import Llama.Proofs.ScopeSimulation

/-!
# Type tables that are filled ahead

Reading a program enters its type groups in the type table. An analysis with that table does the
same as one that starts with the built-in types and enters each group when it comes to it, but for
the problems with type groups, which the latter reports and the former does not report again.
-/

namespace Llama.Proofs

open Analyzer

lemma filter_semantic (errors : List SemanticError) :
    (errors.map Report.semantic).filter isTypeDefinition = [] ∧
      ((errors.map Report.semantic).filter fun r => !isTypeDefinition r) =
        errors.map Report.semantic := by
  constructor
  · simp [isTypeDefinition]
  · simp [List.filter_eq_self, isTypeDefinition]

/-- A walk `v` with the table `T`, which is ahead of a walk `w` whose table has come to `U`. Only
the latter has reported problems with type groups. -/
structure Ahead (T U : TypeTable) (errors : List TypeError) (v w : Walk) : Prop where
  filled : v.types = T
  fresh : w.types = U
  passed : v.passed = w.passed
  entered : ∀ id ∈ w.passed, id ∈ U.entered
  inference : v.inference = w.inference
  others : v.reports.toList = w.reports.toList.filter fun r => !isTypeDefinition r
  typeDefinitions : w.reports.toList.filter isTypeDefinition = errors.map .badTypeDefinition

variable {T U : TypeTable} {errors : List TypeError} {v w : Walk}

/-- The names that a walk may use are those of the groups that it has passed, and these the two
tables know alike. -/
lemma congruent_ahead (hgains : Gains (· ∉ U.entered) U T) : Congruent (Ahead T U errors) where
  inference _ _ h := h.inference
  infer v w f h := { h with inference := congrArg f h.inference }
  report v w r hr h := by
    have hother : isTypeDefinition r = false := by
      cases r with
      | badTypeDefinition e => exact absurd rfl (hr e)
      | _ => rfl
    refine { h with others := ?_, typeDefinitions := ?_ }
    · simp [h.others, hother]
    · simp [h.typeDefinitions, hother]
  valid v w ty h := by
    rw [h.filled, h.fresh, h.passed]
    exact hgains.validateWithin h.entered ty
  constructor v w name h := by
    rw [h.filled, h.fresh, h.passed]
    exact hgains.constructorWithin? h.entered name

/-- The walk ahead finds a type group entered; the other catches up by that group. -/
lemma Ahead.typeGroup {group : TypeGroup} (h : Ahead T U errors v w)
    (hentered : group.site.id ∈ T.entered) :
    Ahead T (U.enter group).1 (errors ++ (U.enter group).2) (group.analyze v).2
      (group.analyze w).2 := by
  obtain ⟨-, hids⟩ := gains_enter U group
  obtain ⟨hreported, hdropped⟩ := filter_typeDefinitions (U.enter group).2
  rw [typeGroup_run, typeGroup_run, h.filled, h.fresh, enter_of_entered hentered]
  refine ⟨rfl, rfl, ?_, ?_, h.inference, ?_, ?_⟩
  · simp only [h.passed]
  · intro id hid
    rcases List.mem_cons.mp hid with rfl | hid
    · exact (hids _).mpr (.inl rfl)
    · exact (hids id).mpr (.inr (h.entered id hid))
  · simp [h.others, hdropped]
  · simp [h.typeDefinitions, hreported]

/-- At the end of the definitions the two tables are the same. -/
lemma ahead_definitions (ds : List Definition) (env : Env)
    (h : Ahead (enterAll U (typeGroupsOf ds)).1 U errors v w) :
    Ahead (enterAll U (typeGroupsOf ds)).1 (enterAll U (typeGroupsOf ds)).1
      (errors ++ (enterAll U (typeGroupsOf ds)).2) (elaborateDefinitions ds env v).2
      (elaborateDefinitions ds env w).2 := by
  induction ds generalizing U errors v w env with
  | nil =>
    have herrors : errors ++ (enterAll U (typeGroupsOf [])).2 = errors := List.append_nil _
    rw [herrors]
    exact h
  | cons d ds ih =>
    cases d with
    | lets group =>
      obtain ⟨hgains, -⟩ := gains_enterAll (typeGroupsOf ds) U
      obtain ⟨hscope, hafter⟩ := (plain_group (tree_plain.group group) env).respects
        (congruent_ahead hgains) v w h
      have hrun : ∀ w, elaborateDefinitions (.lets group :: ds) env w =
          elaborateDefinitions ds ((elaborateGroup group env w).1 ++ env)
            (elaborateGroup group env w).2 := fun _ => rfl
      rw [hrun, hrun, hscope]
      exact ih _ hafter
    | types group =>
      obtain ⟨-, hids⟩ := gains_enter U group
      obtain ⟨-, hkept⟩ := gains_enterAll (typeGroupsOf ds) (U.enter group).1
      have hentered : group.site.id ∈ (enterAll U (typeGroupsOf (.types group :: ds))).1.entered :=
        hkept _ ((hids _).mpr (.inl rfl))
      have hrest := ih env (h.typeGroup hentered)
      rw [List.append_assoc] at hrest
      exact hrest

/-- A type table that is filled while a program is read serves its analysis like one that is
filled on the way. The analyses and the tables at the end are the same. So are the reports, but
that problems with type groups are reported only on the way, and these are the ones that were
reported while reading. -/
theorem analyze_prefilled_types (tokens : List Token) (program : Program)
    (h : (parse tokens).program = some program) (firstTag : Tag) (solver : Solver) :
    let filled := program.analyze (parse tokens).types firstTag solver
    let fresh := program.analyze TypeTable.initial firstTag solver
    filled.1 = fresh.1 ∧ filled.2.1 = fresh.2.1 ∧
      (filled.2.2 = fresh.2.2.filter fun r => !isTypeDefinition r) ∧
      fresh.2.2.filter isTypeDefinition = (parse tokens).reports := by
  obtain ⟨htypes, hreports⟩ := parse_entered h
  have hstart : Ahead (parse tokens).types TypeTable.initial []
      (Walk.initial (parse tokens).types firstTag) (Walk.initial TypeTable.initial firstTag) :=
    ⟨rfl, rfl, rfl, nofun, rfl, rfl, rfl⟩
  rw [htypes] at hstart
  have hend := ahead_definitions program.definitions Library.symbols hstart
  rw [List.nil_append, ← htypes, ← elaborateProgram] at hend
  rw [analyze_eq, analyze_eq, hreports]
  generalize (elaborateProgram program (Walk.initial (parse tokens).types firstTag)).2 = v at hend ⊢
  generalize (elaborateProgram program (Walk.initial TypeTable.initial firstTag)).2 = w at hend ⊢
  have htables : v.types = w.types := hend.filled.trans hend.fresh.symm
  simp only [hend.inference, htables, hend.others, List.filter_append, hend.typeDefinitions,
    filter_semantic, List.append_nil, and_self]

/-- The text is `type t = A let x = B type t = B type u = B let y = B`: the second definition of
`t` is refused, and `B` is used before and after it is defined. -/
def redefiningTokens : List Token :=
  [(.kwType, "type"), (.genid, "t"), (.equals, "="), (.conid, "A"),
   (.kwLet, "let"), (.genid, "x"), (.equals, "="), (.conid, "B"),
   (.kwType, "type"), (.genid, "t"), (.equals, "="), (.conid, "B"),
   (.kwType, "type"), (.genid, "u"), (.equals, "="), (.conid, "B"),
   (.kwLet, "let"), (.genid, "y"), (.equals, "="), (.conid, "B")].map fun w =>
    Token.made w.1 w.2 1 1

theorem analyze_prefilled_redefiningTokens :
    ∃ program, (parse redefiningTokens).program = some program ∧
      (parse redefiningTokens).reports.length = 1 ∧
      let filled := program.analyze (parse redefiningTokens).types 1 Solver.unsolved
      let fresh := program.analyze TypeTable.initial 1 Solver.unsolved
      filled.1 = fresh.1 ∧ filled.2.1 = fresh.2.1 ∧
        (filled.2.2 = fresh.2.2.filter fun r => !isTypeDefinition r) ∧
        fresh.2.2.filter isTypeDefinition = (parse redefiningTokens).reports := by
  have hread : (parse redefiningTokens).program.isSome = true := by decide +kernel
  have hrefused : (parse redefiningTokens).reports.length = 1 := by decide +kernel
  obtain ⟨program, h⟩ := Option.isSome_iff_exists.mp hread
  exact ⟨program, h, hrefused,
    analyze_prefilled_types redefiningTokens program h 1 Solver.unsolved⟩

end Llama.Proofs
