/-!
# Types

The types of the source language. Six of them are built in; a user type is only a name here,
and the type table knows which names are defined. Types are written in source syntax: `ref`
stands after its operand and binds tightest, then `array of`, then the arrow, which groups to
the right.
-/

namespace Llama

/-- A type of the source language. -/
inductive Ty where
  | bool
  | char
  | float
  | int
  | unit
  | string
  /-- Arrays with a number of dimensions. -/
  | array (element : Ty) (dims : Nat)
  | func (source target : Ty)
  | ref (inner : Ty)
  /-- A type that is known by its name. -/
  | user (name : String)
deriving DecidableEq, Repr

/-- The outermost shape of a type. -/
inductive TyKind where
  | bool | char | float | int | unit | string | array | function | ref | user
deriving DecidableEq, Repr

namespace TyKind

/-- Every shape, in the order in which sets of shapes are listed. -/
def all : List TyKind :=
  [.bool, .char, .float, .int, .unit, .string, .array, .function, .ref, .user]

theorem mem_all (kind : TyKind) : kind ∈ all := by
  cases kind <;> decide

def text : TyKind → String
  | .bool => "bool"
  | .char => "char"
  | .float => "float"
  | .int => "int"
  | .unit => "unit"
  | .string => "string"
  | .array => "array"
  | .function => "function"
  | .ref => "ref"
  | .user => "user"

/-- A set of shapes as a list in order and without repetition. -/
def canonical (kinds : List TyKind) : List TyKind :=
  all.filter kinds.contains

@[simp] theorem mem_canonical {kinds : List TyKind} {kind : TyKind} :
    kind ∈ canonical kinds ↔ kind ∈ kinds := by
  simp [canonical, mem_all]

end TyKind

namespace Ty

/-- The types that are built in. -/
def builtins : List Ty := [.bool, .char, .float, .int, .unit, .string]

/-- The function type that takes the parameters one after the other. -/
def curried (params : List Ty) (result : Ty) : Ty :=
  params.foldr func result

def kind : Ty → TyKind
  | .bool => .bool
  | .char => .char
  | .float => .float
  | .int => .int
  | .unit => .unit
  | .string => .string
  | .array _ _ => .array
  | .func _ _ => .function
  | .ref _ => .ref
  | .user _ => .user

/-- The name under which a built-in or user type is known. -/
def name? : Ty → Option String
  | .bool => some "bool"
  | .char => some "char"
  | .float => some "float"
  | .int => some "int"
  | .unit => some "unit"
  | .string => some "string"
  | .user name => some name
  | .array _ _ | .func _ _ | .ref _ => none

def builtin? (name : String) : Option Ty :=
  builtins.find? fun ty => ty.name? == some name

def isArray : Ty → Bool
  | .array _ _ => true
  | _ => false

def isFunc : Ty → Bool
  | .func _ _ => true
  | _ => false

def isBuiltin (ty : Ty) : Bool := builtins.contains ty

/-- Puts a text in parentheses if asked to. -/
def parenthesized (needed : Bool) (text : String) : String :=
  if needed then "(" ++ text ++ ")" else text

/-- The word for an array with a number of dimensions; one dimension is not mentioned. -/
def arrayWord (dims : Nat) : String :=
  if dims = 1 then "array of "
  else "array [" ++ ", ".intercalate (List.replicate dims "*") ++ "] of "

def text : Ty → String
  | .bool => "bool"
  | .char => "char"
  | .float => "float"
  | .int => "int"
  | .unit => "unit"
  | .string => "string"
  | .array element dims =>
    arrayWord dims ++ parenthesized (element.isFunc || element.isArray) element.text
  | .func source target => parenthesized source.isFunc source.text ++ " -> " ++ target.text
  | .ref inner => parenthesized (inner.isFunc || inner.isArray) inner.text ++ " ref"
  | .user name => name

end Ty

end Llama
