import Llama.Ty.Basic

/-!
# Terms

A term is a type whose parts may be placeholders. A placeholder is known by its tag.
-/

namespace Llama

/-- The number of a placeholder, in 32 bits: after the greatest one comes zero. -/
abbrev Tag := UInt32

def Tag.text (tag : Tag) : String := "@" ++ toString tag

/-- A type that may contain placeholders. -/
inductive Term where
  | bool
  | char
  | float
  | int
  | unit
  | string
  | array (element : Term) (dims : Nat)
  | func (source target : Term)
  | ref (inner : Term)
  | user (name : String)
  | temp (tag : Tag)
deriving DecidableEq, Repr

/-- A type as a term without placeholders. -/
def Ty.toTerm : Ty → Term
  | .bool => .bool
  | .char => .char
  | .float => .float
  | .int => .int
  | .unit => .unit
  | .string => .string
  | .array element dims => .array element.toTerm dims
  | .func source target => .func source.toTerm target.toTerm
  | .ref inner => .ref inner.toTerm
  | .user name => .user name

namespace Term

/-- The function term that takes the parameters one after the other. -/
def curried (params : List Term) (result : Term) : Term :=
  params.foldr func result

/-- The outermost shape; a placeholder has none. -/
def kind? : Term → Option TyKind
  | .bool => some .bool
  | .char => some .char
  | .float => some .float
  | .int => some .int
  | .unit => some .unit
  | .string => some .string
  | .array _ _ => some .array
  | .func _ _ => some .function
  | .ref _ => some .ref
  | .user _ => some .user
  | .temp _ => none

/-- The type that a term without placeholders is. -/
def toTy? : Term → Option Ty
  | .bool => some .bool
  | .char => some .char
  | .float => some .float
  | .int => some .int
  | .unit => some .unit
  | .string => some .string
  | .array element dims => element.toTy?.map fun element => .array element dims
  | .func source target =>
    match source.toTy?, target.toTy? with
    | some source, some target => some (.func source target)
    | _, _ => none
  | .ref inner => inner.toTy?.map .ref
  | .user name => some (.user name)
  | .temp _ => none

def tags : Term → List Tag
  | .array element _ => element.tags
  | .func source target => source.tags ++ target.tags
  | .ref inner => inner.tags
  | .temp tag => [tag]
  | .bool | .char | .float | .int | .unit | .string | .user _ => []

def isArray : Term → Bool
  | .array _ _ => true
  | _ => false

def isFunc : Term → Bool
  | .func _ _ => true
  | _ => false

def text : Term → String
  | .bool => "bool"
  | .char => "char"
  | .float => "float"
  | .int => "int"
  | .unit => "unit"
  | .string => "string"
  | .array element dims =>
    Ty.arrayWord dims ++ Ty.parenthesized (element.isFunc || element.isArray) element.text
  | .func source target => Ty.parenthesized source.isFunc source.text ++ " -> " ++ target.text
  | .ref inner => Ty.parenthesized (inner.isFunc || inner.isArray) inner.text ++ " ref"
  | .user name => name
  | .temp tag => Tag.text tag

end Term

end Llama
