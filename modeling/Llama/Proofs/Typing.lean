import Llama.Analysis.Program

/-!
# Typing rules

The monomorphic type system, as a judgement on trees whose nodes carry types. A name has one type
throughout its scope; scopes are those of the source, and the functions of the library are in
scope everywhere.
-/

namespace Llama.Proofs

/-- A type for every node of a program. -/
abbrev Decoration := NodeId → Ty

/-- The types of the names that are in scope, innermost first. -/
abbrev Context := List (String × Ty)

/-- The types and constructors that are defined up to some place of a program. -/
structure Signature where
  table : TypeTable
  /-- The type groups above this place. -/
  passed : List NodeId

namespace Signature

def constructor? (Δ : Signature) (name : String) : Option ConstructorInfo :=
  Δ.table.constructorWithin? name Δ.passed

/-- The type is well formed and mentions only types that are defined. -/
def Valid (Δ : Signature) (ty : Ty) : Prop := Δ.table.validateWithin ty Δ.passed = .ok ()

/-- What is defined below a type group. -/
def enter (Δ : Signature) (group : TypeGroup) : Signature :=
  ⟨(Δ.table.enter group).1, group.site.id :: Δ.passed⟩

end Signature

/-- An operator takes operands of the first two types and gives a result of the third. -/
inductive BinaryTyping : BinaryOp → Ty → Ty → Ty → Prop
  | integer {op : BinaryOp} (hop : op ∈ [.add, .sub, .mul, .div, .mod]) :
      BinaryTyping op .int .int .int
  | float {op : BinaryOp} (hop : op ∈ [.fAdd, .fSub, .fMul, .fDiv, .pow]) :
      BinaryTyping op .float .float .float
  | order {op : BinaryOp} {τ : Ty} (hop : op ∈ [.lt, .le, .gt, .ge])
      (hτ : τ ∈ [.int, .float, .char]) : BinaryTyping op τ τ .bool
  | equality {op : BinaryOp} {τ : Ty} (hop : op ∈ [.eq, .neq, .natEq, .natNeq])
      (harray : τ.isArray = false) (hfunc : τ.isFunc = false) : BinaryTyping op τ τ .bool
  | logic {op : BinaryOp} (hop : op ∈ [.and, .or]) : BinaryTyping op .bool .bool .bool
  | seq {τ τ' : Ty} : BinaryTyping .seq τ τ' τ'
  | assign {τ : Ty} : BinaryTyping .assign (.ref τ) τ .unit

/-- An operator takes an operand of the first type and gives a result of the second. -/
inductive UnaryTyping : UnaryOp → Ty → Ty → Prop
  | integer {op : UnaryOp} (hop : op ∈ [.plus, .minus]) : UnaryTyping op .int .int
  | float {op : UnaryOp} (hop : op ∈ [.fPlus, .fMinus]) : UnaryTyping op .float .float
  | not : UnaryTyping .not .bool .bool
  | deref {τ : Ty} : UnaryTyping .deref (.ref τ) τ

section

variable (σ : Decoration) (Δ : Signature)

def defContext (defs : List Def) : Context := defs.map fun d => (d.name, σ d.site.id)

def paramContext (params : List Param) : Context := params.map fun p => (p.name, σ p.site.id)

def siteContext (sites : List (Site × String)) : Context := sites.map fun b => (b.2, σ b.1.id)

/-- The names in scope in the definitions of a group: with its own names if it is recursive. -/
def groupContext (group : LetGroup) (Γ : Context) : Context :=
  if group.isRec then defContext σ group.defs ++ Γ else Γ

mutual

/-- The pattern matches values of the type. -/
inductive PatternTyped : Pattern → Ty → Prop
  | const {site : Site} {value : Const} (hσ : σ site.id = value.ty) :
      PatternTyped (.const site value) value.ty
  | var {site : Site} {name : String} {τ : Ty} (hσ : σ site.id = τ) :
      PatternTyped (.var site name) τ
  | constr {site : Site} {name : String} {args : List Pattern} {info : ConstructorInfo}
      (hσ : σ site.id = .user info.owner) (hinfo : Δ.constructor? name = some info)
      (hargs : PatternsTyped args info.args) :
      PatternTyped (.constr site name args) (.user info.owner)

inductive PatternsTyped : List Pattern → List Ty → Prop
  | nil : PatternsTyped [] []
  | cons {p : Pattern} {ps : List Pattern} {τ : Ty} {τs : List Ty} (hfirst : PatternTyped p τ)
      (hrest : PatternsTyped ps τs) : PatternsTyped (p :: ps) (τ :: τs)

end

/-- The types that the source gives to the parameters of a function are theirs. -/
def ParamsConform (params : List Param) : Prop :=
  ∀ p ∈ params, ∀ ty ∈ p.ty, Δ.Valid ty ∧ σ p.site.id = ty

mutual

/-- The expression is of the type in the context. -/
inductive HasType : Context → Expr → Ty → Prop
  | const {Γ : Context} {site : Site} {value : Const} (hσ : σ site.id = value.ty) :
      HasType Γ (.const site value) value.ty
  | var {Γ : Context} {site : Site} {name : String} {τ : Ty} (hσ : σ site.id = τ)
      (hname : Γ.lookup name = some τ) : HasType Γ (.var site name) τ
  | constr {Γ : Context} {site : Site} {name : String} {info : ConstructorInfo}
      (hσ : σ site.id = .user info.owner) (hinfo : Δ.constructor? name = some info)
      (hargs : info.args = []) : HasType Γ (.constr site name) (.user info.owner)
  | construct {Γ : Context} {site : Site} {name : String} {args : List Expr}
      {info : ConstructorInfo} (hσ : σ site.id = .user info.owner)
      (hinfo : Δ.constructor? name = some info) (hargs : HaveTypes Γ args info.args) :
      HasType Γ (.construct site name args) (.user info.owner)
  | call {Γ : Context} {site : Site} {name : String} {args : List Expr} {τs : List Ty} {τ : Ty}
      (hσ : σ site.id = τ) (hname : Γ.lookup name = some (Ty.curried τs τ))
      (hargs : HaveTypes Γ args τs) : HasType Γ (.call site name args) τ
  | element {Γ : Context} {site : Site} {name : String} {indices : List Expr} {τ : Ty}
      (hσ : σ site.id = .ref τ) (hname : Γ.lookup name = some (.array τ indices.length))
      (hindices : ∀ e ∈ indices, HasType Γ e .int) :
      HasType Γ (.element site name indices) (.ref τ)
  | dim {Γ : Context} {site : Site} {dimension : Int} {name : String} {τ : Ty} {dims : Nat}
      (hσ : σ site.id = .int) (hname : Γ.lookup name = some (.array τ dims))
      (hdimension : 1 ≤ dimension) : HasType Γ (.dim site dimension name) .int
  | binary {Γ : Context} {site : Site} {op : BinaryOp} {left right : Expr} {τl τr τ : Ty}
      (hσ : σ site.id = τ) (hleft : HasType Γ left τl) (hright : HasType Γ right τr)
      (hop : BinaryTyping op τl τr τ) : HasType Γ (.binary site op left right) τ
  | unary {Γ : Context} {site : Site} {op : UnaryOp} {operand : Expr} {τo τ : Ty}
      (hσ : σ site.id = τ) (hoperand : HasType Γ operand τo) (hop : UnaryTyping op τo τ) :
      HasType Γ (.unary site op operand) τ
  | delete {Γ : Context} {site : Site} {operand : Expr} {τ : Ty} (hσ : σ site.id = .unit)
      (hoperand : HasType Γ operand (.ref τ)) : HasType Γ (.delete site operand) .unit
  | new {Γ : Context} {site : Site} {ty : Ty} (hσ : σ site.id = .ref ty)
      (hvalid : Δ.Valid (.ref ty)) : HasType Γ (.new site ty) (.ref ty)
  | forLoop {Γ : Context} {site : Site} {counter : String} {first : Expr} {down : Bool}
      {last body : Expr} (hσ : σ site.id = .unit) (hfirst : HasType Γ first .int)
      (hlast : HasType Γ last .int) (hbody : HasType ((counter, .int) :: Γ) body .unit) :
      HasType Γ (.forLoop site counter first down last body) .unit
  | whileLoop {Γ : Context} {site : Site} {condition body : Expr} (hσ : σ site.id = .unit)
      (hcondition : HasType Γ condition .bool) (hbody : HasType Γ body .unit) :
      HasType Γ (.whileLoop site condition body) .unit
  | ifThen {Γ : Context} {site : Site} {condition positive : Expr} (hσ : σ site.id = .unit)
      (hcondition : HasType Γ condition .bool) (hpositive : HasType Γ positive .unit) :
      HasType Γ (.ifThen site condition positive) .unit
  | ifElse {Γ : Context} {site : Site} {condition positive negative : Expr} {τ : Ty}
      (hσ : σ site.id = τ) (hcondition : HasType Γ condition .bool)
      (hpositive : HasType Γ positive τ) (hnegative : HasType Γ negative τ) :
      HasType Γ (.ifElse site condition positive negative) τ
  | letIn {Γ : Context} {site : Site} {group : LetGroup} {body : Expr} {τ : Ty}
      (hσ : σ site.id = τ) (hgroup : ∀ d ∈ group.defs, DefTyped (groupContext σ group Γ) d)
      (hbody : HasType (defContext σ group.defs ++ Γ) body τ) :
      HasType Γ (.letIn site group body) τ
  | matchWith {Γ : Context} {site : Site} {scrutinee : Expr} {clauses : List Clause} {τs τ : Ty}
      (hσ : σ site.id = τ) (hscrutinee : HasType Γ scrutinee τs)
      (hpatterns : ∀ c ∈ clauses, PatternTyped σ Δ c.pattern τs)
      (hbodies : ∀ c ∈ clauses, HasType (siteContext σ c.pattern.bindings ++ Γ) c.body τ) :
      HasType Γ (.matchWith site scrutinee clauses) τ

/-- The expressions are of the types, one by one. -/
inductive HaveTypes : Context → List Expr → List Ty → Prop
  | nil {Γ : Context} : HaveTypes Γ [] []
  | cons {Γ : Context} {e : Expr} {es : List Expr} {τ : Ty} {τs : List Ty}
      (hfirst : HasType Γ e τ) (hrest : HaveTypes Γ es τs) : HaveTypes Γ (e :: es) (τ :: τs)

/-- The name of the definition is of the type that its node carries. -/
inductive DefTyped : Context → Def → Prop
  | function {Γ : Context} {site : Site} {name : String} {params : List Param}
      {result : Option Ty} {body : Expr} {τ : Ty}
      (hσ : σ site.id = Ty.curried (params.map fun p => σ p.site.id) τ)
      (hparams : ParamsConform σ Δ params)
      (hresult : ∀ ty ∈ result, ty.isArray = false ∧ Δ.Valid ty ∧ ty = τ)
      (hbody : HasType (paramContext σ params ++ Γ) body τ) :
      DefTyped Γ (.function site name params result body)
  | constant {Γ : Context} {site : Site} {name : String} {ty : Option Ty} {body : Expr} {τ : Ty}
      (hσ : σ site.id = τ) (hty : ∀ ty' ∈ ty, Δ.Valid ty' ∧ ty' = τ)
      (hbody : HasType Γ body τ) : DefTyped Γ (.constant site name ty body)
  | mutableVar {Γ : Context} {site : Site} {name : String} {ty : Ty} (hσ : σ site.id = .ref ty)
      (hvalid : Δ.Valid (.ref ty)) : DefTyped Γ (.mutableVar site name (some ty))
  | mutableArray {Γ : Context} {site : Site} {name : String} {dims : List Expr} {ty : Ty}
      (hσ : σ site.id = .array ty dims.length) (hvalid : Δ.Valid (.array ty dims.length))
      (hdims : ∀ e ∈ dims, HasType Γ e .int) :
      DefTyped Γ (.mutableArray site name dims (some ty))

end

end

/-- The definitions at the top of a program are typed one after the other. A let group is in
scope in all that follow it, and so are the types of a type group. -/
inductive DefinitionsTyped (σ : Decoration) : Signature → Context → List Definition → Prop
  | nil {Δ : Signature} {Γ : Context} : DefinitionsTyped σ Δ Γ []
  | lets {Δ : Signature} {Γ : Context} {group : LetGroup} {rest : List Definition}
      (hgroup : ∀ d ∈ group.defs, DefTyped σ Δ (groupContext σ group Γ) d)
      (hrest : DefinitionsTyped σ Δ (defContext σ group.defs ++ Γ) rest) :
      DefinitionsTyped σ Δ Γ (.lets group :: rest)
  | types {Δ : Signature} {Γ : Context} {group : TypeGroup} {rest : List Definition}
      (hrest : DefinitionsTyped σ (Δ.enter group) Γ rest) :
      DefinitionsTyped σ Δ Γ (.types group :: rest)

/-- The program is typed when its nodes carry the given types. -/
def ProgramTyped (σ : Decoration) (types : TypeTable) (program : Program) : Prop :=
  DefinitionsTyped σ ⟨types, []⟩ Library.signatures program.definitions

end Llama.Proofs
