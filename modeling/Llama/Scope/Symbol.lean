import Llama.Inference.Term
import Llama.Span

/-!
# Symbols

A symbol is a name that a program or the library defines.
-/

namespace Llama

/-- What a name stands for. -/
inductive SymbolKind where
  | var | function | parameter | constant | library
deriving DecidableEq, Repr

/-- A defined name. -/
structure Symbol where
  name : String
  kind : SymbolKind
  /-- The type that the source gives to the name. -/
  ty : Option Ty
  /-- The placeholder for the type of the name. -/
  temp : Option Tag
  span : Span
deriving DecidableEq, Repr

/-- A name that is defined twice in one scope. -/
structure DuplicateName where
  name : String
  span : Span
  previous : Span
deriving DecidableEq, Repr

/-- The wording of a duplicate definition. -/
def DuplicateName.message (e : DuplicateName) : String :=
  e.span.location ++ ": Duplicate identifier: " ++ e.name ++ ", previous definition at " ++
    e.previous.location

end Llama
