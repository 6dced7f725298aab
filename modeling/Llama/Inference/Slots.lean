import Llama.Tree.Basic

/-!
# Type slots

One slot for the type of each node of a program. A slot is written at most once.
-/

namespace Llama

/-- The types of nodes, as far as they are known. -/
structure TypeSlots where
  slots : Array (Option Ty)

namespace TypeSlots

/-- Empty slots for the nodes below `count`. -/
def ofCount (count : Nat) : TypeSlots := ⟨Array.replicate count none⟩

def size (s : TypeSlots) : Nat := s.slots.size

def isEmpty (s : TypeSlots) : Bool := s.slots.isEmpty

def get? (s : TypeSlots) (node : NodeId) : Option Ty :=
  (s.slots[node]?).join

/-- Adds empty slots until there is one for the node. -/
def growTo (s : TypeSlots) (node : NodeId) : TypeSlots :=
  ⟨s.slots ++ Array.replicate (node + 1 - s.slots.size) none⟩

/-- Writes the slot of a node unless it was written before, and tells whether it did. -/
def set (s : TypeSlots) (node : NodeId) (ty : Ty) : Bool × TypeSlots :=
  let s := s.growTo node
  match s.get? node with
  | some _ => (false, s)
  | none => (true, ⟨s.slots.setIfInBounds node (some ty)⟩)

/-- The slots that were written, in order. -/
def written (s : TypeSlots) : List (NodeId × Ty) :=
  s.slots.toList.zipIdx.filterMap fun (slot, node) => slot.map fun ty => (node, ty)

def filled (s : TypeSlots) : Nat := s.written.length

end TypeSlots

end Llama
