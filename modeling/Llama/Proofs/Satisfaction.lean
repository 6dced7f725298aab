import Llama.Proofs.PlainSteps
import Llama.Proofs.Typing

/-!
# Assignments that satisfy constraints

An assignment gives a type to every placeholder. It is a model of what inference has collected
if it satisfies all constraints and gives the primary placeholders the types that their nodes
carry. The constraints of an operator say no more and no less than its typing rule.
-/

namespace Llama

variable {θ : Tag → Ty} {result : Tag}

/-- The type that a term is when its placeholders are given types. -/
@[simp]
def Term.subst (θ : Tag → Ty) : Term → Ty
  | .bool => .bool
  | .char => .char
  | .float => .float
  | .int => .int
  | .unit => .unit
  | .string => .string
  | .array element dims => .array (element.subst θ) dims
  | .func source target => .func (source.subst θ) (target.subst θ)
  | .ref inner => .ref (inner.subst θ)
  | .user name => .user name
  | .temp tag => θ tag

@[simp]
lemma Ty.subst_toTerm (θ : Tag → Ty) (ty : Ty) : ty.toTerm.subst θ = ty := by
  induction ty with
  | array element dims ih => simp [Ty.toTerm, ih]
  | func source target ihs iht => simp [Ty.toTerm, ihs, iht]
  | ref inner ih => simp [Ty.toTerm, ih]
  | _ => rfl

lemma Ty.tags_toTerm (ty : Ty) : ty.toTerm.tags = [] := by
  induction ty with
  | array element dims ih => simpa [Ty.toTerm, Term.tags] using ih
  | func source target ihs iht => simp [Ty.toTerm, Term.tags, ihs, iht]
  | ref inner ih => simpa [Ty.toTerm, Term.tags] using ih
  | _ => rfl

lemma Term.subst_curried (θ : Tag → Ty) (tags : List Tag) (result : Tag) :
    (Term.curried (tags.map .temp) (.temp result)).subst θ =
      Ty.curried (tags.map θ) (θ result) := by
  induction tags with
  | nil => rfl
  | cons tag tags ih => exact congrArg (Ty.func (θ tag)) ih

lemma Term.tags_curried (tags : List Tag) (result : Tag) :
    (Term.curried (tags.map .temp) (.temp result)).tags = tags ++ [result] := by
  induction tags with
  | nil => rfl
  | cons tag tags ih => exact congrArg (tag :: ·) ih

lemma Term.subst_congr {θ' : Tag → Ty} {term : Term} (h : ∀ t ∈ term.tags, θ t = θ' t) :
    term.subst θ = term.subst θ' := by
  induction term with
  | array element dims ih => simp [ih h]
  | func source target ihs iht =>
    have hs : ∀ t ∈ source.tags, θ t = θ' t := fun t ht => h t (List.mem_append_left _ ht)
    have ht : ∀ t ∈ target.tags, θ t = θ' t := fun t ht => h t (List.mem_append_right _ ht)
    simp [ihs hs, iht ht]
  | ref inner ih => simp [ih h]
  | temp tag => exact h tag List.mem_cons_self
  | _ => rfl

/-- The constraint is satisfied when placeholders are given types. -/
@[simp]
def Constraint.Holds (θ : Tag → Ty) : Constraint → Prop
  | .spec target term => θ target = term.subst θ
  | .oneOf target kinds => (θ target).kind ∈ kinds
  | .noneOf target kinds => (θ target).kind ∉ kinds
  | .same left right => θ left = θ right

lemma Constraint.Holds.congr {θ' : Tag → Ty} {c : Constraint} (h : ∀ t ∈ c.tags, θ t = θ' t)
    (hc : c.Holds θ) : c.Holds θ' := by
  cases c with
  | spec target term =>
    have hterm : ∀ t ∈ term.tags, θ t = θ' t := fun t ht => h t (List.mem_cons_of_mem _ ht)
    simp only [Constraint.Holds] at hc ⊢
    rw [← h target List.mem_cons_self, ← Term.subst_congr hterm, hc]
  | oneOf target kinds | noneOf target kinds =>
    simp only [Constraint.Holds] at hc ⊢
    rw [← h target List.mem_cons_self]
    exact hc
  | same left right =>
    simp only [Constraint.Holds] at hc ⊢
    rw [← h left (by simp [tags]), ← h right (by simp [tags]), hc]

end Llama

namespace Llama.Proofs

open Analyzer

/-- An assignment satisfies all constraints and gives to the primary placeholder of each node the
type that the node carries. -/
structure Model (θ : Tag → Ty) (σ : Decoration) (i : Inference) : Prop where
  constraints : ∀ c ∈ i.constraints.toList, c.Holds θ
  primary : ∀ node tag, i.primary? node = some tag → σ node = θ tag

lemma Model.of_grows {σ : Decoration} {i j : Inference} (hij : Grows i j) (h : Model θ σ j) :
    Model θ σ i :=
  ⟨fun c hc => h.constraints c (hij.constraints.subset hc),
    fun node tag htag => h.primary node tag (hij.primary? htag)⟩

lemma exists_temp_of_primary? {i : Inference} {node : NodeId} {tag : Tag}
    (h : i.primary? node = some tag) :
    ∃ temp ∈ i.temps.toList, temp.primary = true ∧ temp.node = node ∧ temp.tag = tag := by
  unfold Inference.primary? at h
  rw [← Array.find?_toList] at h
  obtain ⟨temp, hfound, htag⟩ := Option.map_eq_some_iff.mp h
  have hmem := List.mem_of_find?_eq_some hfound
  have hprimary := List.find?_some hfound
  simp only [Bool.and_eq_true, beq_iff_eq] at hprimary
  exact ⟨temp, hmem, hprimary.1, hprimary.2, htag⟩

/-! ### Steps that only add constraints -/

/-- The step adds the constraints, in order, and does nothing else. -/
def Emits (m : Analyzer Unit) (cs : List Constraint) : Prop :=
  ∀ w, m w = ((), { w with inference := cs.foldl Inference.constrain w.inference })

lemma emits_pure : Emits (pure ()) [] := fun _ => rfl

lemma emits_bind {m m' : Analyzer Unit} {cs cs' : List Constraint} (h : Emits m cs)
    (h' : Emits m' cs') : Emits (m >>= fun _ => m') (cs ++ cs') := by
  intro w
  rw [bind_run, h w, h', List.foldl_append]

lemma emits_spec (target : Tag) (term : Term) : Emits (spec target term) [.spec target term] :=
  fun _ => rfl

lemma emits_same (left right : Tag) : Emits (same left right) [.same left right] := fun _ => rfl

lemma emits_oneOf (target : Tag) (kinds : List TyKind) :
    Emits (oneOf target kinds) [.oneOf target (TyKind.canonical kinds)] := fun _ => rfl

lemma emits_forM {α : Type} {step : α → Analyzer Unit} {c : α → Constraint}
    (h : ∀ a, Emits (step a) [c a]) (l : List α) : Emits (l.forM step) (l.map c) := by
  induction l with
  | nil => exact emits_pure
  | cons a l ih => exact emits_bind (h a) ih

lemma foldl_constrain (cs : List Constraint) (i : Inference) :
    (cs.foldl Inference.constrain i).constraints.toList = i.constraints.toList ++ cs ∧
      (cs.foldl Inference.constrain i).temps = i.temps ∧
      (cs.foldl Inference.constrain i).next = i.next := by
  induction cs generalizing i with
  | nil => simp
  | cons c cs ih =>
    obtain ⟨hconstraints, htemps, hnext⟩ := ih (i.constrain c)
    refine ⟨?_, htemps, hnext⟩
    rw [List.foldl_cons, hconstraints]
    simp [Inference.constrain]

/-- The constraints of a binary operator. -/
def binaryDemands (op : BinaryOp) (result left right : Tag) : List Constraint :=
  match op with
  | .add | .sub | .mul | .div | .mod => [left, right, result].map fun t => .spec t .int
  | .fAdd | .fSub | .fMul | .fDiv | .pow => [left, right, result].map fun t => .spec t .float
  | .lt | .le | .gt | .ge =>
    [.oneOf left (TyKind.canonical [.int, .float, .char]), .same left right, .spec result .bool]
  | .eq | .neq | .natEq | .natNeq =>
    [.noneOf left (TyKind.canonical [.array, .function]), .same left right, .spec result .bool]
  | .and | .or => [left, right, result].map fun t => .spec t .bool
  | .seq => [.same result right]
  | .assign => [.spec left (.ref (.temp right)), .spec result .unit]

/-- The constraints of a prefix operator. -/
def unaryDemands (op : UnaryOp) (result operand : Tag) : List Constraint :=
  match op with
  | .plus | .minus => [.spec result .int, .same result operand]
  | .fPlus | .fMinus => [.spec result .float, .same result operand]
  | .not => [operand, result].map fun t => .spec t .bool
  | .deref =>
    [.noneOf operand (TyKind.canonical (TyKind.all.filter (· != .ref))),
      .spec operand (.ref (.temp result))]

lemma emits_relate (op : BinaryOp) (result left right : Tag) :
    Emits (op.relate result left right) (binaryDemands op result left right) := by
  intro w
  cases op <;> rfl

lemma emits_relateUnary (op : UnaryOp) (result operand : Tag) :
    Emits (op.relate result operand) (unaryDemands op result operand) := by
  intro w
  cases op <;> rfl

lemma kind_mem_ordered {τ : Ty} :
    τ.kind ∈ [TyKind.int, .float, .char] ↔ τ ∈ [Ty.int, .float, .char] := by
  cases τ <;> simp [Ty.kind]

lemma kind_notMem_compared {τ : Ty} :
    τ.kind ∉ [TyKind.array, .function] ↔ τ.isArray = false ∧ τ.isFunc = false := by
  cases τ <;> simp [Ty.kind, Ty.isArray, Ty.isFunc]

lemma exists_array_of_kind {τ : Ty} (h : τ.kind = .array) : ∃ τ' dims, τ = .array τ' dims := by
  cases τ with
  | array τ dims => exact ⟨τ, dims, rfl⟩
  | _ => cases h

lemma BinaryTyping.holds {op : BinaryOp} {left right : Tag}
    (h : BinaryTyping op (θ left) (θ right) (θ result)) :
    ∀ c ∈ binaryDemands op result left right, c.Holds θ := by
  generalize hl : θ left = τl, hr : θ right = τr, ht : θ result = τ at h
  cases h with
  | integer hop | float hop | logic hop =>
    simp only [List.mem_cons, List.not_mem_nil, or_false] at hop
    rcases hop with rfl | rfl | rfl | rfl | rfl <;> simp [binaryDemands, hl, hr, ht]
  | order hop hτ =>
    have hkind := kind_mem_ordered.mpr hτ
    simp only [List.mem_cons, List.not_mem_nil, or_false] at hop
    rcases hop with rfl | rfl | rfl | rfl <;> simpa [binaryDemands, hl, hr, ht] using hkind
  | equality hop harray hfunc =>
    have hkind := kind_notMem_compared.mpr ⟨harray, hfunc⟩
    simp only [List.mem_cons, List.not_mem_nil, or_false] at hop
    rcases hop with rfl | rfl | rfl | rfl <;> simpa [binaryDemands, hl, hr, ht] using hkind
  | seq => simp [binaryDemands, hr, ht]
  | assign => simp [binaryDemands, hl, hr, ht]

lemma binaryTyping_of_holds {op : BinaryOp} {left right : Tag}
    (h : ∀ c ∈ binaryDemands op result left right, c.Holds θ) :
    BinaryTyping op (θ left) (θ right) (θ result) := by
  cases op with
  | add | sub | mul | div | mod =>
    obtain ⟨hl, hr, ht⟩ : θ left = .int ∧ θ right = .int ∧ θ result = .int := by
      simpa [binaryDemands] using h
    rw [hl, hr, ht]
    exact .integer (by decide)
  | fAdd | fSub | fMul | fDiv | pow =>
    obtain ⟨hl, hr, ht⟩ : θ left = .float ∧ θ right = .float ∧ θ result = .float := by
      simpa [binaryDemands] using h
    rw [hl, hr, ht]
    exact .float (by decide)
  | lt | le | gt | ge =>
    obtain ⟨hkind, hsame, ht⟩ : (θ left).kind ∈ [TyKind.int, .float, .char] ∧
        θ left = θ right ∧ θ result = .bool := by
      simpa [binaryDemands] using h
    rw [← hsame, ht]
    exact .order (by decide) (kind_mem_ordered.mp hkind)
  | eq | neq | natEq | natNeq =>
    obtain ⟨hkind, hsame, ht⟩ : (θ left).kind ∉ [TyKind.array, .function] ∧
        θ left = θ right ∧ θ result = .bool := by
      simpa [binaryDemands] using h
    rw [← hsame, ht]
    obtain ⟨harray, hfunc⟩ := kind_notMem_compared.mp hkind
    exact .equality (by decide) harray hfunc
  | and | or =>
    obtain ⟨hl, hr, ht⟩ : θ left = .bool ∧ θ right = .bool ∧ θ result = .bool := by
      simpa [binaryDemands] using h
    rw [hl, hr, ht]
    exact .logic (by decide)
  | seq =>
    have hsame : θ result = θ right := by simpa [binaryDemands] using h
    rw [hsame]
    exact .seq
  | assign =>
    obtain ⟨hl, ht⟩ : θ left = .ref (θ right) ∧ θ result = .unit := by
      simpa [binaryDemands] using h
    rw [hl, ht]
    exact .assign

lemma UnaryTyping.holds {op : UnaryOp} {operand : Tag} (h : UnaryTyping op (θ operand) (θ result)) :
    ∀ c ∈ unaryDemands op result operand, c.Holds θ := by
  generalize ho : θ operand = τo, ht : θ result = τ at h
  cases h with
  | integer hop | float hop =>
    simp only [List.mem_cons, List.not_mem_nil, or_false] at hop
    rcases hop with rfl | rfl <;> simp [unaryDemands, ho, ht]
  | not => simp [unaryDemands, ho, ht]
  | deref => simp [unaryDemands, ho, ht, Ty.kind]

lemma unaryTyping_of_holds {op : UnaryOp} {operand : Tag}
    (h : ∀ c ∈ unaryDemands op result operand, c.Holds θ) :
    UnaryTyping op (θ operand) (θ result) := by
  cases op with
  | plus | minus =>
    obtain ⟨ht, hsame⟩ : θ result = .int ∧ θ result = θ operand := by
      simpa [unaryDemands] using h
    rw [← hsame, ht]
    exact .integer (by decide)
  | fPlus | fMinus =>
    obtain ⟨ht, hsame⟩ : θ result = .float ∧ θ result = θ operand := by
      simpa [unaryDemands] using h
    rw [← hsame, ht]
    exact .float (by decide)
  | not =>
    obtain ⟨ho, ht⟩ : θ operand = .bool ∧ θ result = .bool := by simpa [unaryDemands] using h
    rw [ho, ht]
    exact .not
  | deref =>
    have ho : θ operand = .ref (θ result) :=
      h (.spec operand (.ref (.temp result))) (by simp [unaryDemands])
    rw [ho]
    exact .deref

/-- The type of a name under an assignment. A name of the library has the type of its
signature. -/
def symbolType? (θ : Tag → Ty) (symbol : Symbol) : Option Ty :=
  match symbol.temp with
  | some tag => some (θ tag)
  | none => symbol.ty

/-- Both sides bind the same names, and the symbol on one side is related to the type on the
other. -/
def Binds (R : Symbol → Ty → Prop) (env : Env) (Γ : Context) : Prop :=
  ∀ name, Option.Rel R (Env.lookup? env name) (Γ.lookup name)

/-- Both sides bind the same names, to the same types. -/
abbrev Fits (θ : Tag → Ty) (env : Env) (Γ : Context) : Prop :=
  Binds (fun symbol τ => symbolType? θ symbol = some τ) env Γ

section

variable {R : Symbol → Ty → Prop} {env env' : Env} {Γ Γ' : Context} {symbol : Symbol}
  {name : String} {τ : Ty}

lemma binds_nil : Binds R [] [] := fun _ => .none

lemma binds_singleton (h : R symbol τ) : Binds R [symbol] [(symbol.name, τ)] := by
  intro name
  by_cases hname : symbol.name = name
  · subst hname
    simpa [Env.lookup?] using Option.Rel.some h
  · have hname' : (name == symbol.name) = false := by simpa using fun h' => hname h'.symm
    simp [Env.lookup?, List.lookup_cons, hname, hname']

lemma rel_or {a a' : Option Symbol} {b b' : Option Ty} (h : Option.Rel R a b)
    (h' : Option.Rel R a' b') : Option.Rel R (a.or a') (b.or b') := by
  cases h with
  | none => exact h'
  | some hR => exact .some hR

lemma rel_mono {R' : Symbol → Ty → Prop} (hR : ∀ symbol τ, R symbol τ → R' symbol τ)
    {a : Option Symbol} {b : Option Ty} (h : Option.Rel R a b) : Option.Rel R' a b := by
  cases h with
  | none => exact .none
  | some h => exact .some (hR _ _ h)

lemma Binds.append (h : Binds R env Γ) (h' : Binds R env' Γ') :
    Binds R (env ++ env') (Γ ++ Γ') := by
  intro name
  have henv : Env.lookup? (env ++ env') name =
      (Env.lookup? env name).or (Env.lookup? env' name) := List.find?_append
  rw [henv, List.lookup_append]
  exact rel_or (h name) (h' name)

lemma binds_library (h : ∀ name ty, R ⟨name, .library, some ty, none, Span.origin⟩ ty) :
    Binds R Library.symbols Library.signatures := by
  unfold Library.symbols
  induction Library.signatures with
  | nil => exact binds_nil
  | cons s signatures ih => exact (binds_singleton (h s.1 s.2)).append ih

/-- A name that is declared twice keeps its first type. -/
lemma binds_declare (h : Binds R env Γ) (hsymbol : R symbol τ) (w : Walk) :
    Binds R (declare env symbol w).1 (Γ ++ [(symbol.name, τ)]) := by
  have hall := h.append (binds_singleton hsymbol)
  unfold declare
  cases hfound : Env.lookup? env symbol.name with
  | none => exact hall
  | some previous =>
    intro name
    have hname := hall name
    rw [lookup?_append_of_found hfound name] at hname
    exact hname

/-- A name with a type is in scope. -/
lemma Binds.exists_symbol (h : Binds R env Γ) (hname : Γ.lookup name = some τ) :
    ∃ symbol, Env.lookup? env name = some symbol ∧ R symbol τ := by
  have hrel := h name
  rw [hname] at hrel
  cases hfound : Env.lookup? env name with
  | none =>
    rw [hfound] at hrel
    cases hrel
  | some symbol =>
    rw [hfound] at hrel
    cases hrel with
    | some hR => exact ⟨symbol, rfl, hR⟩

/-- A name that is in scope has a type. -/
lemma Binds.exists_type (h : Binds R env Γ) (hname : Env.lookup? env name = some symbol) :
    ∃ τ, Γ.lookup name = some τ ∧ R symbol τ := by
  have hrel := h name
  rw [hname] at hrel
  cases hfound : Γ.lookup name with
  | none =>
    rw [hfound] at hrel
    cases hrel
  | some τ =>
    rw [hfound] at hrel
    cases hrel with
    | some hR => exact ⟨τ, rfl, hR⟩

end

end Llama.Proofs
