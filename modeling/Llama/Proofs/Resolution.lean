import Llama.Analysis.Program

/-!
# Which binder a name goes back to

The rules of lexical scope, said on trees alone. `programFindings` goes through a program with
the bindings that are in scope, innermost first, and lists every use of a name with the binding
it goes back to, and every binding whose name is taken in its own scope.
-/

namespace Llama.Proofs

/-- What introduces a name. -/
inductive Binder where
  /-- A definition, a parameter or a variable of a pattern. -/
  | node (id : NodeId)
  /-- The counter of a for loop. -/
  | counter (loop : NodeId)
  /-- A function of the library. -/
  | library (ty : Ty)

structure Binding where
  name : String
  span : Span
  binder : Binder

/-- The innermost binding of a name. Of the bindings of one scope the first comes first. -/
def findBinding (bindings : List Binding) (name : String) : Option Binding :=
  bindings.find? fun b => b.name == name

/-- In what way a name is used. -/
inductive UseForm where
  | var
  | call (args : List NodeId)
  | element (dims : Nat)
  | dim

/-- A use of a name with the binding it goes back to. -/
structure Use where
  site : Site
  name : String
  form : UseForm
  binding : Option Binding

inductive Finding where
  | use (u : Use)
  /-- The name of a binding is taken in its scope. -/
  | taken (e : DuplicateName)

def useFinding (site : Site) (name : String) (form : UseForm) (env : List Binding) : Finding :=
  .use ⟨site, name, form, findBinding env name⟩

/-- Of the bindings of one scope, those whose name an earlier one has. -/
def takenFrom (earlier : List Binding) : List Binding → List Finding
  | [] => []
  | b :: rest =>
    ((findBinding earlier b.name).map fun previous =>
      Finding.taken ⟨b.name, b.span, previous.span⟩).toList ++ takenFrom (earlier ++ [b]) rest

def taken (bindings : List Binding) : List Finding := takenFrom [] bindings

def defBindings (defs : List Def) : List Binding :=
  defs.map fun d => ⟨d.name, d.site.span, .node d.site.id⟩

def paramBindings (params : List Param) : List Binding :=
  params.map fun p => ⟨p.name, p.site.span, .node p.site.id⟩

def siteBindings (sites : List (Site × String)) : List Binding :=
  sites.map fun v => ⟨v.2, v.1.span, .node v.1.id⟩

def libraryBindings : List Binding :=
  Library.signatures.map fun s => ⟨s.1, Span.origin, .library s.2⟩

mutual

@[simp]
def exprFindings : Expr → List Binding → List Finding
  | .const _ _, _ | .constr _ _, _ | .new _ _, _ => []
  | .var site name, env => [useFinding site name .var env]
  | .construct _ _ args, env => exprListFindings args env
  | .call site name args, env =>
    exprListFindings args env ++
      [useFinding site name (.call (args.map fun e => e.site.id)) env]
  | .element site name indices, env =>
    exprListFindings indices env ++ [useFinding site name (.element indices.length) env]
  | .dim site _ name, env => [useFinding site name .dim env]
  | .binary _ _ left right, env => exprFindings left env ++ exprFindings right env
  | .unary _ _ operand, env => exprFindings operand env
  | .delete _ operand, env => exprFindings operand env
  | .forLoop site counter first _ last body, env =>
    exprFindings first env ++ (exprFindings last env ++
      exprFindings body (⟨counter, site.span, .counter site.id⟩ :: env))
  | .whileLoop _ condition body, env => exprFindings condition env ++ exprFindings body env
  | .ifThen _ condition positive, env =>
    exprFindings condition env ++ exprFindings positive env
  | .ifElse _ condition positive negative, env =>
    exprFindings condition env ++ (exprFindings positive env ++ exprFindings negative env)
  | .letIn _ group body, env =>
    groupFindings group env ++ exprFindings body (defBindings group.defs ++ env)
  | .matchWith _ scrutinee clauses, env =>
    exprFindings scrutinee env ++ clauseListFindings clauses env

@[simp]
def exprListFindings : List Expr → List Binding → List Finding
  | [], _ => []
  | e :: rest, env => exprFindings e env ++ exprListFindings rest env

/-- A clause is in the scope of the variables of its pattern. -/
@[simp]
def clauseListFindings : List Clause → List Binding → List Finding
  | [], _ => []
  | .mk _ pattern body :: rest, env =>
    taken (siteBindings pattern.bindings) ++
      (exprFindings body (siteBindings pattern.bindings ++ env) ++ clauseListFindings rest env)

/-- The definitions of a recursive group are in the scope of the group, those of a plain one are
not. -/
@[simp]
def groupFindings : LetGroup → List Binding → List Finding
  | .mk _ true defs, env =>
    taken (defBindings defs) ++ defListFindings defs (defBindings defs ++ env)
  | .mk _ false defs, env => defListFindings defs env ++ taken (defBindings defs)

@[simp]
def defListFindings : List Def → List Binding → List Finding
  | [], _ => []
  | d :: rest, env => defFindings d env ++ defListFindings rest env

@[simp]
def defFindings : Def → List Binding → List Finding
  | .function _ _ params _ body, env =>
    taken (paramBindings params) ++ exprFindings body (paramBindings params ++ env)
  | .constant _ _ _ body, env => exprFindings body env
  | .mutableVar _ _ _, _ => []
  | .mutableArray _ _ dims _, env => exprListFindings dims env

end

/-- A let group at the top is in scope in all definitions after it. -/
@[simp]
def definitionListFindings : List Definition → List Binding → List Finding
  | [], _ => []
  | .lets group :: rest, env =>
    groupFindings group env ++ definitionListFindings rest (defBindings group.defs ++ env)
  | .types _ :: rest, env => definitionListFindings rest env

/-- The names of the library are in scope everywhere, outside all others. -/
def programFindings (program : Program) : List Finding :=
  definitionListFindings program.definitions libraryBindings

/-! ### What the findings demand of an analysis -/

/-- The report for a finding: none for a use of a name that is in scope. -/
def Finding.report? : Finding → Option Report
  | .use ⟨site, name, _, none⟩ => some (.semantic (.unknownIdentifier name site.span))
  | .use ⟨_, _, _, some _⟩ => none
  | .taken e => some (.duplicateName e)

/-- The placeholder of a binder. A function of the library gets one for each use. -/
def HasTemp (i : Inference) (site : Site) (tag : Tag) : Binder → Prop
  | .node id => i.primary? id = some tag
  | .counter loop => ⟨tag, loop, some .int, false⟩ ∈ i.temps.toList
  | .library ty => ⟨tag, site.id, some ty, false⟩ ∈ i.temps.toList

/-- What is said of the placeholder `tag` of a name that is used at a site. -/
def Said (i : Inference) (site : Site) (tag : Tag) : UseForm → Prop
  | .var => ∃ t, i.primary? site.id = some t ∧ .same t tag ∈ i.constraints.toList
  | .call args => ∃ (t : Tag) (ts : List Tag), i.primary? site.id = some t ∧
      args.map i.primary? = ts.map some ∧
      .spec tag (Term.curried (ts.map .temp) (.temp t)) ∈ i.constraints.toList
  | .element dims => ∃ e, ⟨e, site.id, none, false⟩ ∈ i.temps.toList ∧
      .spec tag (.array (.temp e) dims) ∈ i.constraints.toList
  | .dim => .oneOf tag [.array] ∈ i.constraints.toList

/-- A use of a name that is in scope is constrained against the placeholder of its binder. -/
def Use.Constrained (i : Inference) (u : Use) : Prop :=
  ∀ b ∈ u.binding, ∃ tag, HasTemp i u.site tag b.binder ∧ Said i u.site tag u.form

end Llama.Proofs
