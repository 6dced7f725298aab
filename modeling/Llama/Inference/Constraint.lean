import Llama.Inference.Term

/-!
# Constraints

What the parts of a program demand of the placeholders.
-/

namespace Llama

/-- A demand on placeholders. -/
inductive Constraint where
  /-- The target is the given term. -/
  | spec (target : Tag) (term : Term)
  /-- The target has one of the given shapes. -/
  | oneOf (target : Tag) (kinds : List TyKind)
  /-- The target has none of the given shapes. -/
  | noneOf (target : Tag) (kinds : List TyKind)
  /-- Both placeholders stand for the same type. -/
  | same (left right : Tag)
deriving DecidableEq, Repr

namespace Constraint

def tags : Constraint → List Tag
  | .spec target term => target :: term.tags
  | .oneOf target _ => [target]
  | .noneOf target _ => [target]
  | .same left right => [left, right]

/-- A set of shapes in braces. -/
def kindsText (kinds : List TyKind) : String :=
  "\x7b" ++ ", ".intercalate (kinds.map TyKind.text) ++ "\x7d"

def text : Constraint → String
  | .spec target term => Tag.text target ++ " = " ++ term.text
  | .oneOf target kinds => Tag.text target ++ " in " ++ kindsText kinds
  | .noneOf target kinds => Tag.text target ++ " not in " ++ kindsText kinds
  | .same left right => Tag.text left ++ " ~ " ++ Tag.text right

end Constraint

end Llama
