import Llama.Proofs.ConstraintCompleteness
import Llama.Proofs.ConstraintSoundness
import Llama.Proofs.ScopeSimulation
import Mathlib.Data.List.Nodup

/-!
# Constraints and typing rules agree

The types that nodes carry are a typing of a program exactly if some assignment of types to
placeholders satisfies all constraints of its analysis and gives these types to the primary
placeholders of the nodes. Nodes that share a number share a placeholder, which is constrained by
the first of them only.
-/

namespace Llama.Proofs

/-- Where nodes have numbers of their own, a number tells what the source gives to its node. -/
lemma exists_annotated {nodes : List Node} (hids : (nodes.map fun n => n.site.id).Nodup)
    (hannotated : ∀ n ∈ nodes, isAnnotated n = true) : ∃ given, Annotated given nodes := by
  refine ⟨fun id => (nodes.find? fun n => n.site.id == id).bind declaredAt?, fun n hn => ?_⟩
  refine ⟨?_, hannotated n hn⟩
  cases hfound : nodes.find? fun m => m.site.id == n.site.id with
  | none => exact absurd (List.find?_eq_none.mp hfound n hn) (by simp)
  | some m =>
    have hid : m.site.id = n.site.id := by simpa using List.find?_some hfound
    have hsame : m = n :=
      List.inj_on_of_nodup_map hids (List.mem_of_find?_eq_some hfound) hn hid
    simp only [hfound, hsame, Option.bind_some]

/-- Constraints are sound and complete for the typing rules. If an assignment of types to
placeholders satisfies all constraints, the types that it gives to the primary placeholders of the
nodes are a typing of the program; and every typing comes of such an assignment, provided that 32
bits suffice to tell the placeholders apart. This holds of programs whose nodes have numbers of
their own, whose mutable variables and arrays are annotated, and whose analysis reports no
error. -/
theorem constraints_capture_typing (program : Program) (types : TypeTable) (firstTag : Tag)
    (solver : Solver) (hids : (program.nodes.map fun n => n.site.id).Nodup)
    (hannotated : ∀ n ∈ program.nodes, isAnnotated n = true)
    (herrors : ∀ r ∈ (program.analyze types firstTag solver).2.2, r.severity ≠ .error)
    (σ : Decoration) :
    ((∃ θ, Model θ σ (collected (program.analyze types firstTag solver).1)) →
      ProgramTyped σ types program) ∧
    ((program.analyze types firstTag solver).1.temps.size ≤ UInt32.size →
      ProgramTyped σ types program →
        ∃ θ, Model θ σ (collected (program.analyze types firstTag solver).1)) := by
  rw [collected_analyze]
  constructor
  · rintro ⟨θ, hmodel⟩
    obtain ⟨given, hann⟩ := exists_annotated hids hannotated
    rw [analyze_reports] at herrors
    have hclean : Clean (elaborateProgram program (Walk.initial types firstTag)).2 := fun r hr =>
      herrors r (List.mem_append_left _ hr)
    exact program_sound hann types firstTag hclean ⟨hmodel.constraints, hmodel.primary⟩
  · intro hcount htyped
    rw [analyze_eq] at hcount
    obtain ⟨θ, hmodel⟩ := program_complete firstTag htyped hcount
    exact ⟨θ, hmodel.constraints, hmodel.primary⟩

-- `let mutable x : int` and `let f y = x := y`.
def storeProgram : Program where
  definitions :=
    [.lets (.mk ⟨1, default⟩ false [.mutableVar ⟨0, default⟩ "x" (some .int)]),
     .lets (.mk ⟨7, default⟩ false
      [.function ⟨6, default⟩ "f" [⟨⟨2, default⟩, "y", none⟩] none
        (.binary ⟨5, default⟩ .assign (.var ⟨3, default⟩ "x") (.var ⟨4, default⟩ "y"))])]
  nodeCount := 8

def storeTypes : Decoration
  | 0 | 3 => .ref .int
  | 2 | 4 => .int
  | 6 => .func .int .unit
  | _ => .unit

theorem storeProgram_exists_model :
    (storeProgram.nodes.map fun n => n.site.id).Nodup ∧
      (∀ n ∈ storeProgram.nodes, isAnnotated n = true) ∧
      (storeProgram.analyze TypeTable.initial 1 Solver.unsolved).2.2 = [] ∧
      ProgramTyped storeTypes TypeTable.initial storeProgram ∧
      ∃ θ, Model θ storeTypes
        (collected (storeProgram.analyze TypeTable.initial 1 Solver.unsolved).1) := by
  have hids : (storeProgram.nodes.map fun n => n.site.id).Nodup := by decide
  have hannotated : ∀ n ∈ storeProgram.nodes, isAnnotated n = true := by decide
  have hreports : (storeProgram.analyze TypeTable.initial 1 Solver.unsolved).2.2 = [] := by
    decide +kernel
  have hcount : (storeProgram.analyze TypeTable.initial 1 Solver.unsolved).1.temps.size ≤
      UInt32.size := by
    decide +kernel
  have htyped : ProgramTyped storeTypes TypeTable.initial storeProgram := by
    refine .lets (List.forall_mem_singleton.mpr (.mutableVar rfl rfl)) ?_
    refine .lets (List.forall_mem_singleton.mpr ?_) .nil
    refine .function (τ := .unit) rfl (by simp [ParamsConform]) (fun _ h => by cases h) ?_
    exact .binary rfl (.var rfl rfl) (.var rfl rfl) .assign
  refine ⟨hids, hannotated, hreports, htyped, ?_⟩
  refine (constraints_capture_typing storeProgram TypeTable.initial 1 Solver.unsolved hids
    hannotated ?_ storeTypes).2 hcount htyped
  simp [hreports]

-- `let mutable x : int` and `let mutable y : bool`, where both definitions have the number 0.
def sharedNumberProgram : Program where
  definitions :=
    [.lets (.mk ⟨1, default⟩ false [.mutableVar ⟨0, default⟩ "x" (some .int)]),
     .lets (.mk ⟨2, default⟩ false [.mutableVar ⟨0, default⟩ "y" (some .bool)])]
  nodeCount := 3

/-- Where two definitions share a number, the second one is given the placeholder of the first and
its type constrains nothing. -/
theorem sharedNumberProgram_untyped :
    (∀ n ∈ sharedNumberProgram.nodes, isAnnotated n = true) ∧
      (sharedNumberProgram.analyze TypeTable.initial 1 Solver.unsolved).2.2 = [] ∧
      (∃ θ σ, Model θ σ
        (collected (sharedNumberProgram.analyze TypeTable.initial 1 Solver.unsolved).1)) ∧
      ∀ σ, ¬ ProgramTyped σ TypeTable.initial sharedNumberProgram := by
  have hconstraints : (sharedNumberProgram.analyze TypeTable.initial 1
      Solver.unsolved).1.constraints.toList = [.spec 1 (.ref .int)] := by
    decide +kernel
  refine ⟨by decide, by decide +kernel, ⟨fun _ => .ref .int, fun _ => .ref .int, ?_, ?_⟩, ?_⟩
  · intro c hc
    obtain rfl := List.mem_singleton.mp (hconstraints ▸ hc)
    rfl
  · exact fun _ _ _ => rfl
  · intro σ htyped
    cases htyped with
    | lets hfirst hrest =>
      cases hrest with
      | lets hsecond _ =>
        cases List.forall_mem_singleton.mp hfirst with
        | mutableVar hint _ =>
          cases List.forall_mem_singleton.mp hsecond with
          | mutableVar hbool _ => cases hint.symm.trans hbool

end Llama.Proofs
