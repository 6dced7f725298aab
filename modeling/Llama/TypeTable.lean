import Llama.Tree.Basic
import Llama.Ty.Error

/-!
# The type table

The types and constructors that a program may mention. The built-in types are present from the
start; user types are added one group at a time. First all names of a group are entered, then
the constructors, so that a constructor may mention every type of its group. Constructors share
one name space. A name that is taken keeps its first definition.
-/

namespace Llama

/-- What is known of a type name. -/
structure TypeInfo where
  name : String
  /-- The definition of a user type; a built-in type has none. -/
  definition : Option Site
  /-- The group that defines a user type. -/
  group : Option NodeId
  /-- The constructors, in the order of their definition. -/
  constructors : List String
deriving DecidableEq, Repr

def TypeInfo.isBuiltin (info : TypeInfo) : Bool := info.definition.isNone

/-- What is known of a constructor. -/
structure ConstructorInfo where
  name : String
  /-- The name of the type it builds. -/
  owner : String
  args : List Ty
  site : Site
  group : NodeId
deriving DecidableEq, Repr

/-- The type of a constructor as a function of its arguments. -/
def ConstructorInfo.signature (info : ConstructorInfo) : Ty :=
  Ty.curried info.args (.user info.owner)

/-- The known types and constructors, and the groups that were entered. -/
structure TypeTable where
  types : List TypeInfo
  constructors : List ConstructorInfo
  entered : List NodeId
deriving DecidableEq, Repr

namespace TypeTable

def initial : TypeTable where
  types := Ty.builtins.filterMap fun ty => ty.name?.map fun name => ⟨name, none, none, []⟩
  constructors := []
  entered := []

def lookup? (table : TypeTable) (name : String) : Option TypeInfo :=
  table.types.find? fun info => info.name == name

def contains (table : TypeTable) (name : String) : Bool :=
  (table.lookup? name).isSome

def constructor? (table : TypeTable) (name : String) : Option ConstructorInfo :=
  table.constructors.find? fun info => info.name == name

/-- A constructor that one of the given groups defines. -/
def constructorWithin? (table : TypeTable) (name : String) (groups : List NodeId) :
    Option ConstructorInfo :=
  (table.constructor? name).filter fun info => groups.contains info.group

/-- The constructors of a type, in the order of their definition. -/
def constructorsOf (table : TypeTable) (name : String) : List ConstructorInfo :=
  match table.lookup? name with
  | some info => info.constructors.filterMap table.constructor?
  | none => []

/-- The names of the user types, sorted. -/
def userTypes (table : TypeTable) : List String :=
  ((table.types.filter fun info => !info.isBuiltin).map TypeInfo.name).mergeSort
    fun a b => !(b < a)

/-- Checks that a type is well formed when the names that satisfy `defined` are defined. The
shape of a type is checked before its components, and a source before a target. -/
def check (table : TypeTable) (defined : TypeInfo → Bool) : Ty → Except InvalidType Unit
  | .bool | .char | .float | .int | .unit | .string => .ok ()
  | .array element _ =>
    if element.isArray then .error .arrayOfArray else table.check defined element
  | .func source target =>
    if target.isArray then .error .arrayReturn
    else
      match table.check defined source with
      | .ok () => table.check defined target
      | .error cause => .error cause
  | .ref inner => if inner.isArray then .error .refOfArray else table.check defined inner
  | .user name =>
    match table.lookup? name with
    | some info => if defined info then .ok () else .error (.undefinedType name)
    | none => .error (.undefinedType name)

def validate (table : TypeTable) (ty : Ty) : Except InvalidType Unit :=
  table.check (fun _ => true) ty

/-- Whether a type is built in or defined by one of the given groups. -/
def definedWithin (groups : List NodeId) (info : TypeInfo) : Bool :=
  match info.group with
  | some group => groups.contains group
  | none => true

/-- Checks that a type is well formed when only the given groups are defined. -/
def validateWithin (table : TypeTable) (ty : Ty) (groups : List NodeId) :
    Except InvalidType Unit :=
  table.check (definedWithin groups) ty

def nameClash? (table : TypeTable) (definition : TypeDef) : Option TypeError :=
  (table.lookup? definition.name).map fun info =>
    match info.definition with
    | none => ⟨.redefinedBuiltin definition.name, definition.site.span⟩
    | some previous => ⟨.redefinedType definition.name previous.span, definition.site.span⟩

def addType (table : TypeTable) (group : NodeId) (definition : TypeDef) : TypeTable :=
  { table with
    types := table.types ++ [⟨definition.name, some definition.site, some group, []⟩] }

/-- Enters the names of type definitions. Gives the table, the definitions that were entered,
and the errors of the others. -/
def enterNames (group : NodeId) :
    List TypeDef → TypeTable → TypeTable × List TypeDef × List TypeError
  | [], table => (table, [], [])
  | definition :: rest, table =>
    match table.nameClash? definition with
    | some e =>
      let (table, entered, errors) := enterNames group rest table
      (table, entered, e :: errors)
    | none =>
      let (table, entered, errors) := enterNames group rest (table.addType group definition)
      (table, definition :: entered, errors)

/-- Adds a constructor to the list of its owner. -/
def listUnder (owner constructor : String) (info : TypeInfo) : TypeInfo :=
  if info.name == owner then { info with constructors := info.constructors ++ [constructor] }
  else info

def addConstructor (table : TypeTable) (group : NodeId) (owner : String)
    (constructor : ConstructorDef) : TypeTable :=
  { table with
    types := table.types.map (listUnder owner constructor.name)
    constructors := table.constructors ++
      [⟨constructor.name, owner, constructor.args, constructor.site, group⟩] }

def argumentErrors (table : TypeTable) (constructor : ConstructorDef) : List TypeError :=
  constructor.args.filterMap fun ty =>
    match table.validate ty with
    | .ok () => none
    | .error cause => some ⟨cause, constructor.site.span⟩

/-- Enters one constructor unless its name is taken. -/
def enterConstructor (table : TypeTable) (group : NodeId) (owner : String)
    (constructor : ConstructorDef) : TypeTable × List TypeError :=
  match table.constructor? constructor.name with
  | some previous =>
    (table, [⟨.redefinedConstructor constructor.name previous.site.span, constructor.site.span⟩])
  | none =>
    let table := table.addConstructor group owner constructor
    (table, table.argumentErrors constructor)

/-- Enters constructors, each with the name of its owner. -/
def enterConstructors (group : NodeId) :
    List (String × ConstructorDef) → TypeTable → TypeTable × List TypeError
  | [], table => (table, [])
  | (owner, constructor) :: rest, table =>
    let (table, errors) := table.enterConstructor group owner constructor
    let (table, later) := enterConstructors group rest table
    (table, errors ++ later)

/-- The constructors of type definitions, each with the name of its owner. -/
def ownedConstructors (definitions : List TypeDef) : List (String × ConstructorDef) :=
  definitions.flatMap fun definition =>
    definition.constructors.map fun constructor => (definition.name, constructor)

/-- Enters a group. Errors are in the order of the source, those of type names first. A group
that was entered before is left alone. -/
def enter (table : TypeTable) (group : TypeGroup) : TypeTable × List TypeError :=
  if table.entered.contains group.site.id then (table, [])
  else
    let table := { table with entered := group.site.id :: table.entered }
    let (table, definitions, nameErrors) := enterNames group.site.id group.defs table
    let (table, errors) :=
      enterConstructors group.site.id (ownedConstructors definitions) table
    (table, nameErrors ++ errors)

end TypeTable

end Llama
