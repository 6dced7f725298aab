import Llama.Analysis.Expr

/-!
# Analysing programs

The definitions of a program are walked through in order. The scope of a let group at the top
stays open until the end. A type group is entered in the type table, unless it was entered while
the program was read, and its types count as defined from there on.
-/

namespace Llama

open Analyzer

/-- What an analysis leaves behind. -/
structure Analysis where
  /-- The types of the nodes, as far as they are known. -/
  slots : TypeSlots
  constraints : Array Constraint
  temps : Array Temp
  /-- The definitions whose type is not known and could not be checked. -/
  outstanding : List Obligation

def TypeGroup.analyze (group : TypeGroup) : Analyzer Unit := do
  let (types, errors) := (← get).types.enter group
  modify fun w => { w with types }
  errors.forM fun e => report (.badTypeDefinition e)
  modify fun w => { w with passed := group.site.id :: w.passed }

def Definition.analyze : Definition → Analyzer Unit
  | .lets group => group.analyze
  | .types group => group.analyze

/-- The state in which a walk starts. -/
def Walk.initial (types : TypeTable) (firstTag : Tag) : Walk :=
  ⟨SymbolTable.initial, types, [], Inference.startingAt firstTag, #[]⟩

def SymbolTable.closeAll (table : SymbolTable) : SymbolTable :=
  { table with inner := [] }

/-- Walks through a whole program. -/
def Program.walk (program : Program) : Analyzer Unit := do
  program.definitions.forM Definition.analyze
  rescope SymbolTable.closeAll

/-- Analyses a program: walks through it, then solves the constraints. Gives the analysis, the
type table and the reports. -/
def Program.analyze (program : Program) (types : TypeTable) (firstTag : Tag) (solver : Solver) :
    Analysis × TypeTable × List Report :=
  let (_, w) := program.walk.run (Walk.initial types firstTag)
  let conclusion := w.inference.conclude solver (TypeSlots.ofCount program.nodeCount) w.types
  (⟨conclusion.slots, w.inference.constraints, w.inference.temps, conclusion.outstanding⟩,
    w.types, w.reports.toList ++ conclusion.errors.map .semantic)

end Llama
