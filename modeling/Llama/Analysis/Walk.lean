import Llama.Inference.Basic
import Llama.Scope.Table

/-!
# The state of an analysis

While a program is walked through, scopes open and close, types are entered, placeholders and
constraints are collected and problems are reported. Nothing stops the walk.
-/

namespace Llama

/-- What the walk has gathered so far. -/
structure Walk where
  scopes : SymbolTable
  types : TypeTable
  /-- The type groups that were passed; types of later groups are not yet defined. -/
  passed : List NodeId
  inference : Inference
  reports : Array Report

/-- A step of the walk. -/
abbrev Analyzer (α : Type) := StateM Walk α

namespace Analyzer

def report (r : Report) : Analyzer Unit :=
  modify fun w => { w with reports := w.reports.push r }

def problem (e : SemanticError) : Analyzer Unit := report (.semantic e)

def infer (f : Inference → Inference) : Analyzer Unit :=
  modify fun w => { w with inference := f w.inference }

def inferTag (f : Inference → Tag × Inference) : Analyzer Tag :=
  modifyGet fun w => let (tag, inference) := f w.inference; (tag, { w with inference })

/-- The primary placeholder of a node. -/
def tempFor (node : NodeId) (hint : Option Ty) : Analyzer Tag :=
  inferTag fun i => i.tempFor node hint

/-- An auxiliary placeholder for a node. -/
def aux (node : NodeId) (hint : Option Ty) : Analyzer Tag :=
  inferTag fun i => i.aux node hint

def spec (target : Tag) (term : Term) : Analyzer Unit := infer fun i => i.spec target term

def oneOf (target : Tag) (kinds : List TyKind) : Analyzer Unit :=
  infer fun i => i.oneOf target kinds

def noneOf (target : Tag) (kinds : List TyKind) : Analyzer Unit :=
  infer fun i => i.noneOf target kinds

def same (left right : Tag) : Analyzer Unit := infer fun i => i.same left right

def allOf (term : Term) (tags : List Tag) : Analyzer Unit :=
  tags.forM fun tag => spec tag term

def rescope (f : SymbolTable → SymbolTable) : Analyzer Unit :=
  modify fun w => { w with scopes := f w.scopes }

def openScope : Analyzer Unit := rescope SymbolTable.openScope

def closeScope : Analyzer Unit := rescope SymbolTable.closeScope

/-- Defines a name in the innermost scope or reports that it is taken. -/
def define (symbol : Symbol) : Analyzer Unit := do
  match (← get).scopes.insert symbol with
  | .ok scopes => rescope fun _ => scopes
  | .error e => report (.duplicateName e)

/-- Checks a type that the source gives to the named thing. -/
def validate (ty : Ty) (name : String) (span : Span) : Analyzer Unit := do
  let w ← get
  match w.types.validateWithin ty w.passed with
  | .ok () => pure ()
  | .error cause => problem (.invalidType cause name span)

/-- Checks a type, if the source gives one. -/
def validateOption (ty : Option Ty) (name : String) (span : Span) : Analyzer Unit :=
  match ty with
  | some ty => validate ty name span
  | none => pure ()

/-- The placeholder for a use of a name at a node. A name of the library has none of its own:
each use gets one that is of the type of the name. -/
def useOf (name : String) (site : Site) : Analyzer (Option Tag) := do
  match (← get).scopes.lookup? name with
  | none =>
    problem (.unknownIdentifier name site.span)
    pure none
  | some symbol =>
    match symbol.temp, symbol.ty with
    | some tag, _ => pure (some tag)
    | none, some ty => return some (← aux site.id (some ty))
    | none, none => pure none

/-- A constructor that is defined by a group that was passed. -/
def constructorOf (name : String) (span : Span) : Analyzer (Option ConstructorInfo) := do
  let w ← get
  match w.types.constructorWithin? name w.passed with
  | some info => pure (some info)
  | none =>
    problem (.unknownConstructor name span)
    pure none

/-- A constructor is used with arguments whose placeholders are given, for a value whose
placeholder is `target`. -/
def construct (target : Tag) (name : String) (args : List Tag) (span : Span) : Analyzer Unit := do
  match ← constructorOf name span with
  | none => pure ()
  | some info =>
    if info.args.length ≠ args.length then
      problem (.constructorArity info.name info.args.length args.length span)
    spec target (.user info.owner)
    (args.zip info.args).forM fun (tag, ty) => spec tag ty.toTerm

end Analyzer

end Llama
