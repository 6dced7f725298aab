import Llama.Span

/-!
# Problems with types

A type can have an excluded shape or mention a type that is not defined, and a definition can
use a name that is taken.
-/

namespace Llama

/-- Why a type or a type definition is refused. -/
inductive InvalidType where
  | arrayOfArray
  | arrayReturn
  | refOfArray
  | undefinedType (name : String)
  | redefinedBuiltin (name : String)
  | redefinedType (name : String) (previous : Span)
  | redefinedConstructor (name : String) (previous : Span)
deriving DecidableEq, Repr

namespace InvalidType

/-- Whether the shape of a type is at fault, whatever is defined. -/
def isShapeError : InvalidType → Bool
  | .arrayOfArray | .arrayReturn | .refOfArray => true
  | _ => false

def message : InvalidType → String
  | .arrayOfArray => "Invalid type: array of array"
  | .arrayReturn => "Invalid type: function returning array"
  | .refOfArray => "Invalid type: ref of array"
  | .undefinedType name => "Undefined type: " ++ name
  | .redefinedBuiltin name => "Redefining builtin type " ++ name
  | .redefinedType name previous =>
    "Redefining user type " ++ name ++ ", previous definition at " ++ previous.location
  | .redefinedConstructor name previous =>
    "Redefining constructor " ++ name ++ ", previous definition at " ++ previous.location

end InvalidType

/-- A problem with a type definition and the place of that definition. -/
structure TypeError where
  cause : InvalidType
  span : Span
deriving DecidableEq, Repr

def TypeError.message (e : TypeError) : String :=
  e.span.location ++ ": " ++ e.cause.message

end Llama
