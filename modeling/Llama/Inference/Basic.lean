import Llama.Inference.Constraint
import Llama.Inference.Slots
import Llama.Report
import Llama.TypeTable

/-!
# Inference

Placeholders and constraints are collected while a program is walked through. Each expression,
pattern, parameter and definition has one primary placeholder, which stands for its type; other
placeholders are auxiliary. Solving is left to a solver. Once it is done, the types of primary
placeholders are written to the slots of their nodes, and the definitions whose type was not
given in the source are checked.
-/

namespace Llama

/-- A placeholder for a type. -/
structure Temp where
  tag : Tag
  /-- The node for which it was made. -/
  node : NodeId
  /-- The type that the source gives. -/
  hint : Option Ty
  /-- Whether it stands for the type of its node. -/
  primary : Bool
deriving DecidableEq, Repr

/-- A definition whose type is to be checked once it is known. -/
structure Obligation where
  node : NodeId
  name : String
  span : Span
deriving DecidableEq, Repr

/-- The types that a solver has found. -/
structure Solution where
  types : List (Tag × Ty)

namespace Solution

def empty : Solution := ⟨[]⟩

def get? (solution : Solution) (tag : Tag) : Option Ty :=
  (solution.types.find? fun entry => entry.1 == tag).map Prod.snd

def insert (solution : Solution) (tag : Tag) (ty : Ty) : Solution :=
  ⟨solution.types.filter (fun entry => entry.1 != tag) ++ [(tag, ty)]⟩

def size (solution : Solution) : Nat := solution.types.length

def isEmpty (solution : Solution) : Bool := solution.types.isEmpty

/-- The solution with the given types, of which a later one replaces an earlier one. -/
def ofList (types : List (Tag × Ty)) : Solution :=
  types.foldl (fun solution entry => solution.insert entry.1 entry.2) empty

end Solution

/-- Finds types for placeholders under constraints. -/
abbrev Solver := Array Constraint → Array Temp → Solution

namespace Solver

/-- Leaves every placeholder open. -/
def unsolved : Solver := fun _ _ => Solution.empty

/-- Takes the types that the source gives, and no others. -/
def hints : Solver := fun _ temps =>
  Solution.ofList (temps.toList.filterMap fun temp => temp.hint.map fun ty => (temp.tag, ty))

end Solver

/-- The placeholders and constraints collected so far. -/
structure Inference where
  /-- The tag of the next placeholder. -/
  next : Tag
  temps : Array Temp
  constraints : Array Constraint
  /-- The definitions to be checked at the end. -/
  pending : Array Obligation

namespace Inference

/-- Tags are counted from one. -/
def firstTag : Tag := 1

/-- Nothing is collected, and the next placeholder has the given tag. -/
def startingAt (next : Tag) : Inference := ⟨next, #[], #[], #[]⟩

/-- The number of tags given out so far. -/
def issued (i : Inference) : Tag := i.next - firstTag

def constrain (i : Inference) (c : Constraint) : Inference :=
  { i with constraints := i.constraints.push c }

def spec (i : Inference) (target : Tag) (term : Term) : Inference :=
  i.constrain (.spec target term)

def oneOf (i : Inference) (target : Tag) (kinds : List TyKind) : Inference :=
  i.constrain (.oneOf target (TyKind.canonical kinds))

def noneOf (i : Inference) (target : Tag) (kinds : List TyKind) : Inference :=
  i.constrain (.noneOf target (TyKind.canonical kinds))

def same (i : Inference) (left right : Tag) : Inference :=
  i.constrain (.same left right)

/-- The placeholder is of the type that the source gives, if it gives one. -/
def specHint (i : Inference) (target : Tag) : Option Ty → Inference
  | some ty => i.spec target ty.toTerm
  | none => i

/-- Makes a placeholder. A hint also constrains it. -/
def newTemp (i : Inference) (node : NodeId) (hint : Option Ty) (primary : Bool) :
    Tag × Inference :=
  let tag := i.next
  let hinted := i.specHint tag hint
  (tag, { hinted with next := tag + 1, temps := hinted.temps.push ⟨tag, node, hint, primary⟩ })

/-- The primary placeholder of a node. -/
def primary? (i : Inference) (node : NodeId) : Option Tag :=
  (i.temps.find? fun temp => temp.primary && temp.node == node).map Temp.tag

/-- The primary placeholder of a node, which is made when it is asked for first. -/
def tempFor (i : Inference) (node : NodeId) (hint : Option Ty) : Tag × Inference :=
  match i.primary? node with
  | some tag => (tag, i)
  | none => i.newTemp node hint true

def aux (i : Inference) (node : NodeId) (hint : Option Ty) : Tag × Inference :=
  i.newTemp node hint false

/-- Puts off the check of a definition until its type is known. -/
def defer (i : Inference) (obligation : Obligation) : Inference :=
  { i with pending := i.pending.push obligation }

end Inference

/-- Writes the type that was found for a primary placeholder to the slot of its node. -/
def Temp.writeBack (temp : Temp) (solution : Solution) (slots : TypeSlots) : TypeSlots :=
  match temp.primary, solution.get? temp.tag with
  | true, some ty => (slots.set temp.node ty).2
  | _, _ => slots

/-- What is left when inference is over. -/
structure Conclusion where
  slots : TypeSlots
  /-- The definitions that could not be checked because their type is not known. -/
  outstanding : List Obligation
  /-- The definitions whose type is not well formed. -/
  errors : List SemanticError

namespace Inference

/-- The definitions whose type is not known. -/
def outstanding (slots : TypeSlots) (pending : List Obligation) : List Obligation :=
  pending.filter fun obligation => (slots.get? obligation.node).isNone

/-- The problem with the type of a definition, if it is known. -/
def obligationError? (table : TypeTable) (slots : TypeSlots) (obligation : Obligation) :
    Option SemanticError :=
  match slots.get? obligation.node with
  | none => none
  | some ty =>
    match table.validate ty with
    | .ok () => none
    | .error cause => some (.invalidType cause obligation.name obligation.span)

/-- Solves the constraints, writes the types to the slots and checks the definitions whose check
was put off. -/
def conclude (i : Inference) (solver : Solver) (slots : TypeSlots) (table : TypeTable) :
    Conclusion :=
  let solution := solver i.constraints i.temps
  let slots := i.temps.foldl (fun slots temp => temp.writeBack solution slots) slots
  let pending := i.pending.toList
  ⟨slots, outstanding slots pending, pending.filterMap (obligationError? table slots)⟩

end Inference

end Llama
