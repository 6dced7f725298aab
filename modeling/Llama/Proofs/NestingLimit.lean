import Llama.Proofs.Numbering
import Llama.Proofs.ParserResults
import Llama.Proofs.TreeHeight

/-!
# The limit on nesting

Whatever is read with a number of levels left is nested at most that deep. So the limit on nesting
bounds the nesting of every tree of a program, and with it the height of a tree in terms of its
longest chain of operators or of `ref`. It does not bound the height alone: a chain of operators is
read at one level, however long it is, and every operator makes the tree one higher.
-/

namespace Llama.Proofs

open Llama.Parser Llama.Grammar

variable {α β : Type} {d : Deeper} {k : Nat} {e left : Expr}

/-- Whatever a parser makes satisfies `P`. -/
def Makes (p : Parser α) (P : α → Prop) : Prop :=
  ∀ tokens s s' a, p tokens s = (.ok a, s') → P a

section Combinators

variable {p : Parser α} {f : α → Parser β} {P : α → Prop} {Q : β → Prop}

lemma makes_pure {a : α} (h : P a) : Makes (pure a) P := fun _ => makesFrom_pure h

lemma makes_bind (hp : Makes p P) (hf : ∀ a, P a → Makes (f a) Q) : Makes (p >>= f) Q :=
  fun tokens => makesFrom_bind (hp tokens) fun a ha => hf a ha tokens

/-- A step whose result does not matter. -/
lemma makes_skip (hf : ∀ a, Makes (f a) Q) : Makes (p >>= f) Q :=
  fun tokens => makesFrom_skip fun a => hf a tokens

lemma makes_ite {c : Prop} [Decidable c] {q : Parser α} (hp : Makes p P) (hq : Makes q P) :
    Makes (if c then p else q) P :=
  fun tokens => makesFrom_ite (hp tokens) (hq tokens)

lemma makes_failWith (e : SyntaxError) : Makes (failWith e : Parser α) P :=
  fun _ => makesFrom_failWith e

lemma makes_unexpected (expected : String) : Makes (unexpected expected : Parser α) P :=
  fun _ => makesFrom_unexpected expected

lemma makes_tooDeep : Makes (tooDeep : Parser α) P := fun _ => makesFrom_tooDeep

lemma makes_pure_none : Makes (pure none : Parser (Option α)) fun o => ∀ a ∈ o, P a :=
  fun _ => makesFrom_pure_none

lemma makes_optional (hp : Makes p P) : Makes (optional p) fun o => ∀ a ∈ o, P a :=
  fun tokens => makesFrom_optional (hp tokens)

lemma makes_many (starts : TokenKind → Bool) (hp : Makes p P) :
    Makes (many starts p) fun as => ∀ a ∈ as, P a :=
  fun tokens => makesFrom_many starts (hp tokens)

lemma makes_separated (separator : TokenKind) (hp : Makes p P) :
    Makes (separated separator p) fun as => ∀ a ∈ as, P a :=
  fun tokens s s' as hrun => (makesFrom_separated separator (hp tokens) s s' as hrun).2

lemma makes_between (opening closing : TokenKind) (hp : Makes p P) :
    Makes (between opening closing p) P :=
  fun tokens => makesFrom_between opening closing (hp tokens)

end Combinators

/-- The results of a parser are nested at most `k` levels deep. -/
def Nests (k : Nat) (node : α → Node) (p : Parser α) : Prop :=
  Makes p fun a => nodeNesting (node a) ≤ k

/-- What stands one level deeper is nested at most `k` levels deep. An array type is an operand at
the level above, where it counts as one level more. -/
structure DeeperNests (k : Nat) (d : Deeper) : Prop where
  exprFrom : ∀ rank, Nests k .expr (d.exprFrom rank)
  operand : Nests k .expr d.operand
  simple : Nests k .expr d.simple
  ty : Makes d.ty fun ty => tyNesting ty ≤ k
  arrayTy : Makes d.arrayTy fun ty => operandNesting ty ≤ k + 1
  pattern : Nests k .pattern d.pattern

lemma operandNesting_of_keyword {kind : TokenKind} {ty : Ty} (h : keywordType? kind = some ty) :
    operandNesting ty = 1 := by
  unfold keywordType? at h
  split at h <;> cases h <;> rfl

lemma operandNesting_namedType (name : String) : operandNesting (namedType name) = 1 := by
  unfold namedType
  cases hfind : Ty.builtin? name with
  | none => rfl
  | some ty =>
    have hmem : ty ∈ Ty.builtins := List.mem_of_find?_eq_some hfind
    have hall : ∀ ty ∈ Ty.builtins, operandNesting ty = 1 := by
      simp [Ty.builtins, operandNesting, Ty.isFunc, tyNesting]
    exact hall ty hmem

lemma makes_typeAtom (h : DeeperNests k d) :
    Makes (typeAtom d) fun ty => operandNesting ty ≤ k + 1 := by
  refine makes_skip fun kind => ?_
  split
  · refine makes_skip fun r => makes_pure ?_
    rw [operandNesting_namedType]
    exact Nat.le_add_left _ _
  · refine makes_between _ _ ?_
    intro tokens s s' ty hrun
    exact Nat.le_trans (operandNesting_le_succ ty) (Nat.succ_le_succ (h.ty _ _ _ _ hrun))
  · exact h.arrayTy
  · split
    next hkeyword =>
      refine makes_skip fun _ => makes_pure ?_
      rw [operandNesting_of_keyword hkeyword]
      exact Nat.le_add_left _ _
    next => exact makes_unexpected _
  · exact makes_unexpected _

lemma operandNesting_refs {γ : Type} (refs : List γ) (ty : Ty) :
    operandNesting (refs.foldl (fun ty _ => .ref ty) ty) = operandNesting ty := by
  induction refs generalizing ty with
  | nil => rfl
  | cons _ refs ih => rw [List.foldl_cons, ih, operandNesting_ref]

lemma makes_typeOperand (h : DeeperNests k d) :
    Makes (typeOperand d) fun ty => operandNesting ty ≤ k + 1 := by
  refine makes_bind (makes_typeAtom h) fun ty hty => makes_skip fun refs => makes_pure ?_
  rw [operandNesting_refs]
  exact hty

lemma makes_arrowType (h : DeeperNests k d) :
    Makes (arrowType d) fun ty => tyNesting ty ≤ k + 1 := by
  refine makes_bind (makes_typeOperand h) fun source hsource => makes_skip fun _ => makes_ite ?_ ?_
  · refine makes_skip fun _ => makes_bind h.ty fun target htarget => makes_pure ?_
    exact Nat.max_le.mpr ⟨hsource, Nat.succ_le_succ htarget⟩
  · exact makes_pure (Nat.le_trans (tyNesting_le_operand source) hsource)

lemma makes_arrayType (h : DeeperNests k d) :
    Makes (arrayType d) fun ty => operandNesting ty ≤ k + 1 + 1 := by
  refine makes_skip fun _ => makes_skip fun _ => makes_skip fun _ => ?_
  refine makes_bind (makes_typeOperand h) fun element helement => makes_pure ?_
  rw [operandNesting_array]
  exact Nat.succ_le_succ helement

lemma makes_annotated (h : DeeperNests k d) :
    Makes (optionalType d) fun o => ∀ ty ∈ o, tyNesting ty ≤ k :=
  makes_optional (makes_skip fun _ => h.ty)

/-- The pattern is nested at most `k` levels deep as an argument. -/
def PatternArgument (k : Nat) (p : Pattern) : Prop :=
  (if isSimplePattern p then 0 else 1) + nodeNesting (.pattern p) ≤ k

lemma PatternArgument.nesting {p : Pattern} (h : PatternArgument k p) :
    nodeNesting (.pattern p) ≤ k :=
  Nat.le_trans (Nat.le_add_left _ _) h

lemma nesting_pattern {site : Site} {name : String} {args : List Pattern}
    (hargs : ∀ p ∈ args, PatternArgument (k + 1) p) :
    nodeNesting (.pattern (.constr site name args)) ≤ k + 1 :=
  nodeNesting_le_iff.mpr ⟨Nat.le_add_left _ _, List.forall_mem_map.mpr hargs⟩

lemma patternArgument_leaf {p : Pattern} (hsimple : isSimplePattern p = true) :
    PatternArgument (k + 1) p := by
  rw [PatternArgument, if_pos hsimple, Nat.zero_add]
  cases p with
  | constr site name args =>
    cases args with
    | nil => exact nesting_pattern fun _ h => absurd h List.not_mem_nil
    | cons => cases hsimple
  | const | var =>
    exact nodeNesting_le_iff.mpr ⟨Nat.le_add_left _ _, fun _ h => absurd h List.not_mem_nil⟩

lemma makes_signedConstant (literal : TokenKind) (negative : Bool) :
    Makes (signedConstant literal negative) (PatternArgument (k + 1)) := by
  refine makes_skip fun _ => makes_skip fun _ => makes_skip fun _ => makes_skip fun _ => ?_
  split
  · exact makes_skip fun _ => makes_pure (patternArgument_leaf rfl)
  · exact makes_failWith _

lemma makes_simplePattern (h : DeeperNests k d) :
    Makes (simplePattern d) (PatternArgument (k + 1)) := by
  refine makes_skip fun kind => ?_
  have hconstant : Makes (do
      let read ← constant
      return Pattern.const (← newSite read.2) read.1) (PatternArgument (k + 1)) :=
    makes_skip fun _ => makes_skip fun _ => makes_pure (patternArgument_leaf rfl)
  split
  · refine makes_between _ _ ?_
    intro tokens s s' p hrun
    have hp := h.pattern _ _ _ _ hrun
    unfold PatternArgument
    split <;> omega
  · exact makes_skip fun _ => makes_skip fun _ => makes_pure (patternArgument_leaf rfl)
  · exact makes_skip fun _ => makes_skip fun _ => makes_pure (patternArgument_leaf rfl)
  · exact makes_signedConstant _ _
  · exact makes_signedConstant _ _
  · exact makes_signedConstant _ _
  · exact makes_signedConstant _ _
  · exact hconstant
  · exact hconstant
  · exact hconstant
  · exact hconstant
  · exact hconstant
  · exact makes_unexpected _

lemma nests_pattern (h : DeeperNests k d) : Nests (k + 1) .pattern (pattern d) := by
  refine makes_skip fun _ => makes_ite ?_ ?_
  · refine makes_skip fun _ =>
      makes_bind (makes_many _ (makes_simplePattern h)) fun args hargs => ?_
    exact makes_skip fun _ => makes_pure (nesting_pattern hargs)
  · exact fun _ _ _ _ hrun => (makes_simplePattern h _ _ _ _ hrun).nesting

/-- The expression is nested at most `k` levels deep as an argument. -/
def ExprArgument (k : Nat) (e : Expr) : Prop :=
  (if isSimple e then 0 else 1) + nodeNesting (.expr e) ≤ k

lemma ExprArgument.nesting (h : ExprArgument k e) : nodeNesting (.expr e) ≤ k :=
  Nat.le_trans (Nat.le_add_left _ _) h

lemma exprArgument_of_isSimple (hsimple : isSimple e = true) (h : nodeNesting (.expr e) ≤ k) :
    ExprArgument k e := by
  rw [ExprArgument, if_pos hsimple, Nat.zero_add]
  exact h

/-- An expression is nested one level deeper than the nodes below it, if they are entered. -/
lemma nesting_entered (htypes : writtenTypes (.expr e) = [])
    (hentries : entries (.expr e) = (Node.exprChildren e).map fun c => (1, c))
    (h : ∀ c ∈ Node.exprChildren e, nodeNesting c ≤ k) : nodeNesting (.expr e) ≤ k + 1 := by
  refine nodeNesting_le_iff.mpr ⟨?_, ?_⟩
  · rw [ownNesting, htypes]
    exact Nat.le_add_left _ _
  · rw [hentries]
    refine List.forall_mem_map.mpr fun c hc => ?_
    rw [Nat.add_comm]
    exact Nat.succ_le_succ (h c hc)

lemma nesting_arguments {args : List Expr} (htypes : writtenTypes (.expr e) = [])
    (hentries : entries (.expr e) = args.map fun arg => (if isSimple arg then 0 else 1, .expr arg))
    (hargs : ∀ arg ∈ args, ExprArgument (k + 1) arg) : nodeNesting (.expr e) ≤ k + 1 := by
  refine nodeNesting_le_iff.mpr ⟨?_, ?_⟩
  · rw [ownNesting, htypes]
    exact Nat.le_add_left _ _
  · rw [hentries]
    exact List.forall_mem_map.mpr hargs

lemma nesting_binary {site : Site} {op : BinaryOp} {right : Expr}
    (hleft : nodeNesting (.expr left) ≤ k + 1) (hright : nodeNesting (.expr right) ≤ k) :
    nodeNesting (.expr (.binary site op left right)) ≤ k + 1 := by
  refine nodeNesting_le_iff.mpr ⟨Nat.le_add_left _ _, ?_⟩
  refine List.forall_mem_cons.mpr ⟨?_, List.forall_mem_singleton.mpr ?_⟩
  · rw [Nat.zero_add]
    exact hleft
  · rw [Nat.add_comm]
    exact Nat.succ_le_succ hright

lemma exprArgument_leaf (hsimple : isSimple e = true) (hchildren : Node.exprChildren e = [])
    (htypes : writtenTypes (.expr e) = [])
    (hentries : entries (.expr e) = (Node.exprChildren e).map fun c => (1, c)) :
    ExprArgument (k + 1) e := by
  refine exprArgument_of_isSimple hsimple (nesting_entered htypes hentries ?_)
  rw [hchildren]
  exact fun _ h => absurd h List.not_mem_nil

lemma nests_wholeExpr (h : DeeperNests k d) : Nests k .expr (wholeExpr d) := h.exprFrom anyRank

lemma makes_indices (h : DeeperNests k d) :
    Makes (between .lBracket .rBracket (exprList d)) fun es =>
      ∀ e ∈ es, nodeNesting (.expr e) ≤ k :=
  makes_between _ _ (makes_separated _ (nests_wholeExpr h))

lemma makes_variableOrElement (h : DeeperNests k d) :
    Makes (variableOrElement d) (ExprArgument (k + 1)) := by
  refine makes_skip fun _ => makes_skip fun _ => makes_ite ?_ ?_
  · refine makes_bind (makes_indices h) fun indices hindices => makes_skip fun _ => makes_pure ?_
    refine exprArgument_of_isSimple rfl (nesting_entered rfl rfl ?_)
    exact List.forall_mem_map.mpr hindices
  · exact makes_skip fun _ => makes_pure (exprArgument_leaf rfl rfl rfl rfl)

lemma makes_dereference (h : DeeperNests k d) :
    Makes (dereference d) (ExprArgument (k + 1)) := by
  refine makes_skip fun _ => makes_bind h.simple fun operand hoperand => makes_skip fun _ => ?_
  refine makes_pure (exprArgument_of_isSimple rfl ?_)
  exact nesting_entered rfl rfl (List.forall_mem_singleton.mpr hoperand)

/-- What stands in parentheses is read one level deeper, so it has a level to spare. -/
lemma makes_parenthesized (h : DeeperNests k d) :
    Makes (parenthesized d) (ExprArgument (k + 1)) := by
  refine makes_skip fun _ => makes_skip fun _ => makes_ite ?_ ?_
  · refine makes_skip fun _ => makes_skip fun _ => ?_
    exact makes_pure (exprArgument_leaf rfl rfl rfl rfl)
  · refine makes_bind (nests_wholeExpr h) fun inner hinner => makes_skip fun _ => makes_pure ?_
    unfold ExprArgument
    split <;> omega

lemma makes_simpleExpr (h : DeeperNests k d) :
    Makes (simpleExpr d) (ExprArgument (k + 1)) := by
  refine makes_skip fun kind => ?_
  split
  · exact makes_variableOrElement h
  · exact makes_skip fun _ => makes_skip fun _ => makes_pure (exprArgument_leaf rfl rfl rfl rfl)
  · exact makes_dereference h
  · exact makes_parenthesized h
  · refine makes_ite ?_ (makes_unexpected _)
    exact makes_skip fun _ => makes_skip fun _ => makes_pure (exprArgument_leaf rfl rfl rfl rfl)
  · exact makes_unexpected _

lemma nests_simpleExpr (h : DeeperNests k d) : Nests (k + 1) .expr (simpleExpr d) :=
  fun _ _ _ _ hrun => (makes_simpleExpr h _ _ _ _ hrun).nesting

lemma nests_variableOrCall (h : DeeperNests k d) : Nests (k + 1) .expr (variableOrCall d) := by
  refine makes_skip fun _ => makes_bind (makes_many _ (makes_simpleExpr h)) fun args hargs => ?_
  cases args with
  | nil => exact makes_skip fun _ => makes_pure (exprArgument_leaf rfl rfl rfl rfl).nesting
  | cons => exact makes_skip fun _ => makes_pure (nesting_arguments rfl rfl hargs)

lemma nests_construction (h : DeeperNests k d) : Nests (k + 1) .expr (construction d) := by
  refine makes_skip fun _ => makes_bind (makes_many _ (makes_simpleExpr h)) fun args hargs => ?_
  cases args with
  | nil => exact makes_skip fun _ => makes_pure (exprArgument_leaf rfl rfl rfl rfl).nesting
  | cons => exact makes_skip fun _ => makes_pure (nesting_arguments rfl rfl hargs)

lemma nests_arrayDim : Nests (k + 1) .expr arrayDim := by
  refine makes_skip fun _ => makes_skip fun _ => makes_skip fun _ => makes_skip fun _ => ?_
  exact makes_pure (nesting_entered rfl rfl fun _ h => absurd h List.not_mem_nil)

lemma nests_newRef (h : DeeperNests k d) : Nests (k + 1) .expr (newRef d) := by
  refine makes_skip fun _ => makes_bind h.ty fun ty hty => makes_skip fun _ => makes_pure ?_
  refine nodeNesting_le_iff.mpr ⟨?_, fun _ h => absurd h List.not_mem_nil⟩
  exact Nat.max_le.mpr ⟨Nat.le_succ_of_le hty, Nat.le_add_left _ _⟩

lemma nests_forLoop (h : DeeperNests k d) : Nests (k + 1) .expr (forLoop d) := by
  refine makes_skip fun _ => makes_skip fun _ => makes_skip fun _ => ?_
  refine makes_bind (nests_wholeExpr h) fun first hfirst => makes_skip fun _ => ?_
  refine makes_bind (nests_wholeExpr h) fun last hlast => makes_skip fun _ => ?_
  refine makes_bind (nests_wholeExpr h) fun body hbody => makes_skip fun _ => ?_
  refine makes_skip fun _ => makes_pure (nesting_entered rfl rfl ?_)
  simp [Node.exprChildren, hfirst, hlast, hbody]

lemma nests_whileLoop (h : DeeperNests k d) : Nests (k + 1) .expr (whileLoop d) := by
  refine makes_skip fun _ => makes_bind (nests_wholeExpr h) fun condition hcondition => ?_
  refine makes_skip fun _ => makes_bind (nests_wholeExpr h) fun body hbody => ?_
  refine makes_skip fun _ => makes_skip fun _ => makes_pure (nesting_entered rfl rfl ?_)
  simp [Node.exprChildren, hcondition, hbody]

lemma nests_conditional (h : DeeperNests k d) : Nests (k + 1) .expr (conditional d) := by
  refine makes_skip fun _ => makes_bind (nests_wholeExpr h) fun condition hcondition => ?_
  refine makes_skip fun _ => makes_bind (h.exprFrom _) fun positive hpositive => ?_
  refine makes_skip fun _ => makes_ite ?_ ?_
  · refine makes_skip fun _ => makes_bind (h.exprFrom _) fun negative hnegative => ?_
    refine makes_skip fun _ => makes_pure (nesting_entered rfl rfl ?_)
    simp [Node.exprChildren, hcondition, hpositive, hnegative]
  · refine makes_skip fun _ => makes_pure (nesting_entered rfl rfl ?_)
    simp [Node.exprChildren, hcondition, hpositive]

/-- A node is nested as deep as the nodes below it if they are read at its own level. -/
lemma nesting_beside {n : Node} (hown : ownNesting n ≤ k)
    (hentries : entries n = n.children.map fun c => (0, c))
    (h : ∀ c ∈ n.children, nodeNesting c ≤ k) : nodeNesting n ≤ k := by
  refine nodeNesting_le_iff.mpr ⟨hown, ?_⟩
  rw [hentries]
  refine List.forall_mem_map.mpr fun c hc => ?_
  rw [Nat.zero_add]
  exact h c hc

lemma nests_clause (h : DeeperNests k d) : Nests k .clause (clause d) := by
  refine makes_bind h.pattern fun pattern hpattern => makes_skip fun _ => ?_
  refine makes_bind (nests_wholeExpr h) fun body hbody => makes_skip fun _ => makes_pure ?_
  refine nesting_beside (Nat.zero_le _) rfl ?_
  simp [Node.children, Clause.pattern, Clause.body, hpattern, hbody]

lemma nests_matchWith (h : DeeperNests k d) : Nests (k + 1) .expr (matchWith d) := by
  refine makes_skip fun _ => makes_bind (nests_wholeExpr h) fun scrutinee hscrutinee => ?_
  refine makes_skip fun _ =>
    makes_bind (makes_separated _ (nests_clause h)) fun clauses hclauses => ?_
  refine makes_skip fun _ => makes_skip fun _ => makes_pure (nesting_entered rfl rfl ?_)
  exact List.forall_mem_cons.mpr ⟨hscrutinee, List.forall_mem_map.mpr hclauses⟩

lemma ownNesting_types {types : List Ty} (h : ∀ ty ∈ types, tyNesting ty ≤ k) :
    (types.map tyNesting).foldr max 0 ≤ k :=
  foldr_max_le_iff.mpr ⟨Nat.zero_le _, List.forall_mem_map.mpr h⟩

lemma nests_param (h : DeeperNests k d) : Nests k .param (param d) := by
  have hleaf : ∀ p : Param, (∀ ty ∈ p.ty, tyNesting ty ≤ k) → nodeNesting (.param p) ≤ k := by
    intro p hty
    refine nesting_beside (ownNesting_types ?_) rfl fun _ h => absurd h List.not_mem_nil
    exact fun ty hmem => hty ty (Option.mem_toList.mp hmem)
  refine makes_skip fun _ => makes_ite ?_ ?_
  · refine makes_skip fun _ => makes_skip fun _ => makes_pure (hleaf _ ?_)
    exact fun _ h => absurd h (Option.not_mem_none _)
  · refine makes_skip fun _ => makes_skip fun _ => makes_skip fun _ => ?_
    refine makes_bind h.ty fun ty hty => makes_skip fun _ => makes_skip fun _ => ?_
    refine makes_pure (hleaf _ ?_)
    intro ty' hty'
    cases hty'
    exact hty

lemma nesting_definition {def' : Def} {ty : Option Ty}
    (htypes : writtenTypes (.definition def') = ty.toList) (hty : ∀ t ∈ ty, tyNesting t ≤ k)
    (h : ∀ c ∈ Node.defChildren def', nodeNesting c ≤ k) : nodeNesting (.definition def') ≤ k := by
  refine nesting_beside ?_ rfl h
  change ((writtenTypes (.definition def')).map tyNesting).foldr max 0 ≤ k
  rw [htypes]
  exact ownNesting_types fun t ht => hty t (Option.mem_toList.mp ht)

lemma nests_mutableDef (h : DeeperNests k d) : Nests k .definition (mutableDef d) := by
  refine makes_skip fun _ => makes_skip fun _ => makes_skip fun _ => makes_ite ?_ ?_
  · refine makes_bind (makes_indices h) fun dims hdims => ?_
    refine makes_bind (makes_annotated h) fun ty hty => makes_skip fun _ => makes_pure ?_
    exact nesting_definition rfl hty (List.forall_mem_map.mpr hdims)
  · refine makes_bind (makes_annotated h) fun ty hty => makes_skip fun _ => makes_pure ?_
    exact nesting_definition rfl hty fun _ h => absurd h List.not_mem_nil

lemma nests_functionDef (h : DeeperNests k d) : Nests k .definition (functionDef d) := by
  refine makes_skip fun _ => makes_bind (makes_many _ (nests_param h)) fun params hparams => ?_
  refine makes_bind (makes_annotated h) fun ty hty => makes_skip fun _ => ?_
  refine makes_bind (nests_wholeExpr h) fun body hbody => makes_skip fun _ => ?_
  have hlast : ∀ c ∈ [Node.expr body], nodeNesting c ≤ k := List.forall_mem_singleton.mpr hbody
  cases params with
  | nil => exact makes_pure (nesting_definition rfl hty hlast)
  | cons =>
    refine makes_pure (nesting_definition rfl hty ?_)
    exact List.forall_mem_append.mpr ⟨List.forall_mem_map.mpr hparams, hlast⟩

lemma nests_letGroup (h : DeeperNests k d) : Nests k .letGroup (letGroup d) := by
  have hdef : Nests k .definition (letDef d) :=
    makes_skip fun _ => makes_ite (nests_mutableDef h) (nests_functionDef h)
  refine makes_skip fun _ => makes_skip fun _ => ?_
  refine makes_bind (makes_separated _ hdef) fun defs hdefs => makes_skip fun _ => makes_pure ?_
  exact nesting_beside (Nat.zero_le _) rfl (List.forall_mem_map.mpr hdefs)

lemma nests_letIn (h : DeeperNests k d) : Nests (k + 1) .expr (letIn d) := by
  refine makes_bind (nests_letGroup h) fun group hgroup => makes_skip fun _ => ?_
  refine makes_bind (nests_wholeExpr h) fun body hbody => makes_skip fun _ => makes_pure ?_
  refine nesting_entered rfl rfl ?_
  simp [Node.exprChildren, hgroup, hbody]

lemma nests_primary (h : DeeperNests k d) : Nests (k + 1) .expr (primary d) := by
  refine makes_skip fun kind => ?_
  split
  · exact makes_skip fun _ => makes_ite (nests_simpleExpr h) (nests_variableOrCall h)
  · exact nests_construction h
  · exact nests_arrayDim
  · exact nests_newRef h
  · refine makes_between _ _ ?_
    exact fun _ _ _ _ hrun => Nat.le_succ_of_le (nests_wholeExpr h _ _ _ _ hrun)
  · exact nests_forLoop h
  · exact nests_whileLoop h
  · exact nests_conditional h
  · exact nests_matchWith h
  · exact nests_letIn h
  · exact nests_simpleExpr h

lemma makes_leastInteger? (sign : Span) :
    Makes (leastInteger? sign) fun o => ∀ e ∈ o, nodeNesting (.expr e) ≤ k + 1 := by
  refine makes_skip fun next => ?_
  cases next with
  | none => exact makes_pure_none
  | some token =>
    refine makes_ite ?_ makes_pure_none
    split
    · refine makes_skip fun _ => makes_skip fun _ => makes_pure ?_
      intro e he
      cases he
      exact (exprArgument_leaf rfl rfl rfl rfl).nesting
    · exact makes_pure_none

lemma nests_prefixed (h : DeeperNests k d) (op : UnaryOp) :
    Nests (k + 1) .expr (prefixed d op) := by
  refine makes_skip fun start => ?_
  refine makes_ite (makes_bind (makes_leastInteger? (k := k) start) ?_)
    (makes_bind (makes_pure_none (P := fun e => nodeNesting (.expr e) ≤ k + 1)) ?_)
  all_goals
    intro least hleast
    cases least with
    | some e => exact makes_pure (hleast e rfl)
    | none =>
      refine makes_bind h.operand fun operand hoperand => makes_skip fun _ => makes_pure ?_
      exact nesting_entered rfl rfl (List.forall_mem_singleton.mpr hoperand)

lemma nests_unary (h : DeeperNests k d) : Nests (k + 1) .expr (unary d) := by
  refine makes_skip fun kind => ?_
  split
  · exact nests_primary h
  · refine makes_skip fun _ => makes_skip fun _ => makes_bind h.operand fun operand hoperand => ?_
    refine makes_skip fun _ => makes_pure (nesting_entered rfl rfl ?_)
    exact List.forall_mem_singleton.mpr hoperand
  · split
    · exact makes_skip fun _ => nests_prefixed h _
    · exact nests_primary h

/-- Climbing keeps to the level at which it began: the left operand is as deep as the whole. -/
lemma nests_climbUpTo (h : DeeperNests k d) (rank count : Nat)
    (hleft : nodeNesting (.expr left) ≤ k + 1) (chained : Option Nat) :
    Nests (k + 1) .expr (climbUpTo d rank count left chained) := by
  induction count generalizing left chained with
  | zero => exact makes_pure hleft
  | succ count ih =>
    refine makes_skip fun kind => ?_
    split
    · exact makes_pure hleft
    · refine makes_ite (makes_pure hleft) (makes_ite (makes_skip fun _ => makes_failWith _) ?_)
      refine makes_skip fun _ => makes_bind (h.exprFrom _) fun right hright => ?_
      exact makes_skip fun _ => ih (nesting_binary hleft hright) _

lemma nests_exprFrom (h : DeeperNests k d) (rank : Nat) : Nests (k + 1) .expr (exprFrom d rank) :=
  makes_bind (nests_unary h) fun _ hleft => makes_skip fun _ => nests_climbUpTo h rank _ hleft _

/-- With a number of levels left, nothing is nested deeper. -/
lemma deeper_nests (levels : Nat) : DeeperNests levels (deeper levels) := by
  induction levels with
  | zero =>
    exact ⟨fun _ => makes_tooDeep, makes_tooDeep, makes_tooDeep, makes_tooDeep, makes_tooDeep,
      makes_tooDeep⟩
  | succ levels ih =>
    rw [deeper_succ]
    exact ⟨nests_exprFrom ih, nests_unary ih, nests_simpleExpr ih, makes_arrowType ih,
      makes_arrayType ih, nests_pattern ih⟩

lemma nests_constructorDef (h : DeeperNests k d) : Nests k .constructor (constructorDef d) := by
  have hleaf : ∀ c : ConstructorDef, (∀ ty ∈ c.args, tyNesting ty ≤ k) →
      nodeNesting (.constructor c) ≤ k := fun c hargs =>
    nesting_beside (ownNesting_types hargs) rfl fun _ h => absurd h List.not_mem_nil
  refine makes_skip fun _ => makes_skip fun _ => makes_ite ?_ ?_
  · refine makes_skip fun _ => makes_bind h.ty fun first hfirst => ?_
    refine makes_bind (makes_many _ h.ty) fun rest hrest => makes_skip fun _ => makes_pure ?_
    exact hleaf _ (List.forall_mem_cons.mpr ⟨hfirst, hrest⟩)
  · refine makes_skip fun _ => makes_pure (hleaf _ ?_)
    exact fun _ h => absurd h List.not_mem_nil

lemma nests_typeGroup (h : DeeperNests k d) : Nests k .typeGroup (typeGroup d) := by
  have hdef : Nests k .typeDef (typeDef d) := by
    refine makes_skip fun _ => makes_skip fun _ => ?_
    refine makes_bind (makes_separated _ (nests_constructorDef h)) fun cs hcs => ?_
    refine makes_skip fun _ => makes_pure ?_
    exact nesting_beside (Nat.zero_le _) rfl (List.forall_mem_map.mpr hcs)
  refine makes_skip fun _ => makes_bind (makes_separated _ hdef) fun defs hdefs => ?_
  refine makes_skip fun _ => makes_skip fun _ => makes_pure ?_
  exact nesting_beside (Nat.zero_le _) rfl (List.forall_mem_map.mpr hdefs)

lemma nests_definition (h : DeeperNests k d) : Nests k definitionNode (definition d) := by
  refine makes_skip fun kind => ?_
  split
  · exact makes_bind (nests_typeGroup h) fun _ hgroup => makes_pure hgroup
  · exact makes_bind (nests_letGroup h) fun _ hgroup => makes_pure hgroup
  · exact makes_skip fun _ => makes_failWith _

lemma Rounds.forall_definitions {tokens : Array Token} {s s' : ParserState}
    {attempts : List Attempt} {P : Definition → Prop} (h : Rounds tokens s attempts s')
    (hmakes : MakesFrom tokens (definition outermost) P) :
    ∀ definition ∈ definitionsOf attempts, P definition := by
  induction h with
  | done => exact fun _ h => absurd h List.not_mem_nil
  | read _ hrun _ ih =>
    rw [definitionsOf_cons_ok]
    exact List.forall_mem_cons.mpr ⟨hmakes _ _ _ hrun, ih⟩
  | failed _ _ _ _ ih => exact ih

/-- Nothing in a program is nested deeper than the limit. -/
lemma nodeNesting_le_maxNesting {tokens : List Token} {program : Program}
    (h : (parse tokens).program = some program) :
    ∀ n ∈ program.nodes, nodeNesting n ≤ maxNesting := by
  obtain ⟨attempts, s, hrounds, -, rfl⟩ := rounds_of_program h
  refine (program_postOrder _).forall_of_roots ?_ ?_
  · exact fun n hn c hc => Nat.le_trans (nodeNesting_le_of_mem_children hc) hn
  · exact List.forall_mem_map.mpr
      (hrounds.forall_definitions (nests_definition (deeper_nests maxNesting) _))

/-- The words `+ 1` a number of times. -/
def sumWords : Nat → List Word
  | 0 => []
  | n + 1 => terminal .plus :: (.intLiteral, "1") :: sumWords n

lemma length_sumWords (n : Nat) : n ≤ (sumWords n).length := by
  induction n with
  | zero => exact Nat.zero_le _
  | succ n ih => exact Nat.le_succ_of_le (Nat.succ_le_succ ih)

/-- What follows a summand: another one, or what ends an expression. -/
def endsSummand (k : Option TokenKind) : Prop := k = some .plus ∨ endsExpr k

lemma endsSummand_sumWords (n : Nat) {k : Option TokenKind} (hk : endsExpr k) :
    endsSummand (firstKind (sumWords n) k) := by
  cases n with
  | zero => exact .inr hk
  | succ n => exact .inl rfl

lemma reads_remaining_length_bind {f : Nat → Parser β} {ws : List Word}
    {follow : Option TokenKind → Prop} {post : β → Prop}
    (h : ∀ count, ws.length ≤ count → Reads (f count) ws follow post) :
    Reads (remaining >>= f) ws follow post := by
  intro tokens s rest hrest hk
  have hlen := length_ahead tokens s
  rw [hrest, List.length_append] at hlen
  rw [bind_run_ok (remaining_run _ _)]
  exact h _ (by omega) tokens s rest hrest hk

lemma reads_unary_one :
    Reads (unary d) [(.intLiteral, "1")] (fun _ => True) (fun _ => True) := by
  have hone : Decodes "1" (.int 1) := rfl
  have hliteral : Reads (simpleExpr d) [(.intLiteral, "1")] (fun _ => True) (fun _ => True) :=
    (reads_simpleExpr_literal hone).mono (fun _ h => h) fun _ _ => trivial
  refine reads_unary_of_startsSimple rfl ?_
  unfold primary
  exact reads_peekKind_bind hliteral

/-- A summand on the right of an operator ends before the next operator, which does not bind
tighter. -/
lemma reads_summand : Reads (exprFrom d BinaryOp.add.rightRank) [(.intLiteral, "1")] endsSummand
    (fun _ => True) := by
  unfold exprFrom
  refine reads_bind_last (reads_unary_one.mono (fun _ _ => trivial) fun _ h => h) fun left _ => ?_
  refine reads_read_bind fun count => ?_
  cases count with
  | zero => exact reads_pure trivial
  | succ count =>
    rw [climbUpTo]
    refine reads_peekKind_follow_bind fun k hk => ?_
    rcases hk with rfl | hk
    · exact reads_pure trivial
    · rw [firstKind, hk.2]
      exact reads_pure trivial

lemma nodeHeight_lt_of_mem_children {n c : Node} (h : c ∈ n.children) :
    nodeHeight c < nodeHeight n := by
  obtain ⟨height, hheight⟩ : ∃ height, nodeHeight n = height + 1 := ⟨_, by rw [nodeHeight]⟩
  have hle := nodeHeight_le_iff.mp (Nat.le_of_eq hheight) c h
  omega

/-- All operators of a chain are read at one level, and each makes the tree one higher. -/
lemma reads_climbUpTo_sum (n : Nat) {levels count : Nat} (hcount : n ≤ count) :
    Reads (climbUpTo (deeper (levels + 1)) anyRank count left none) (sumWords n) endsExpr
      (fun e => nodeHeight (.expr left) + n ≤ nodeHeight (.expr e)) := by
  induction n generalizing count left with
  | zero => exact reads_climbUpTo_stop (fun _ hk => hk.2) (Nat.le_refl _)
  | succ n ih =>
    obtain ⟨count, rfl⟩ : ∃ c, count = c + 1 := ⟨count - 1, by omega⟩
    rw [climbUpTo]
    refine reads_peekKind_bind (reads_advance_bind fun _ _ => ?_)
    have hright : Reads ((deeper (levels + 1)).exprFrom BinaryOp.add.rightRank)
        [(.intLiteral, "1")] endsSummand (fun _ => True) := by
      rw [deeper_succ]
      exact reads_summand
    refine reads_bind hright (fun right _ => ?_) (fun _ hk => endsSummand_sumWords n hk)
    refine reads_newSite_bind fun site => ?_
    refine (ih (by omega)).mono (fun _ hk => hk) fun e he => ?_
    have hless := nodeHeight_lt_of_mem_children (n := .expr (.binary site .add left right))
      (c := .expr left) List.mem_cons_self
    omega

lemma reads_sum (n levels : Nat) :
    Reads (wholeExpr (deeper (levels + 2))) ((.intLiteral, "1") :: sumWords n) endsExpr
      (fun e => n < nodeHeight (.expr e)) := by
  rw [deeper_succ]
  change Reads (exprFrom (deeper (levels + 1)) anyRank) _ _ _
  unfold exprFrom
  refine reads_bind reads_unary_one (fun left _ => ?_) (fun _ _ => trivial)
  refine reads_remaining_length_bind fun count hcount => ?_
  have hmany := Nat.le_trans (length_sumWords n) hcount
  refine (reads_climbUpTo_sum n hmany).mono (fun _ hk => hk) fun e he => ?_
  have hpos : 0 < nodeHeight (.expr left) := by
    rw [nodeHeight]
    exact Nat.succ_pos _
  omega

/-- The binding `let x = 1 + 1 ..` with a number of operators. -/
def sumProgram (n : Nat) : List Word :=
  terminal .kwLet :: (.genid, "x") :: terminal .equals :: (.intLiteral, "1") :: sumWords n

lemma expr_mem_nodes (e : Expr) : .expr e ∈ e.nodes :=
  (tree_postOrder.expr e).mem_of_root _ List.mem_cons_self

/-- Some expression of the nodes is higher than a number. -/
def HoldsHigher (n : Nat) (nodes : List Node) : Prop :=
  ∃ e, .expr e ∈ nodes ∧ n < nodeHeight (.expr e)

lemma reads_sumDef (n levels : Nat) :
    Reads (letDef (deeper (levels + 2)))
      ((.genid, "x") :: terminal .equals :: (.intLiteral, "1") :: sumWords n) endsExpr
      (fun d => HoldsHigher n d.nodes) := by
  have hparams : Reads (many startsParam (param (deeper (levels + 2)))) []
      (fun k => k = some .equals) (fun ps => ps = []) :=
    reads_many_none fun _ hk => hk ▸ rfl
  have htype : Reads (optionalType (deeper (levels + 2))) [] (fun k => k = some .equals)
      (fun ty => ty = none) :=
    (reads_optional_none (refuses_bind (refuses_expect .colon))).mono
      (fun _ hk => hk ▸ by decide) fun _ h => h
  have hbody := reads_sum n levels
  unfold letDef
  refine reads_isAt_other_bind (fun _ _ => by simp [firstKind]) ?_
  unfold functionDef
  refine reads_bind (reads_label (reads_genid "x")) (fun read _ => ?_) (fun _ _ => trivial)
  refine reads_bind hparams ?_ (fun _ _ => rfl)
  rintro _ rfl
  refine reads_bind htype (fun ty _ => ?_) (fun _ _ => rfl)
  refine reads_expect_bind fun _ _ => reads_bind_last hbody fun body hheight => ?_
  refine reads_newSite_bind fun site => reads_pure ⟨body, ?_, hheight⟩
  exact List.mem_append_left _ (expr_mem_nodes body)

lemma reads_sumGroup (n levels : Nat) :
    Reads (letGroup (deeper (levels + 2))) (sumProgram n) (fun k => k = none)
      (fun g => HoldsHigher n g.nodes) := by
  have hrec : Reads (optional (expect .kwRec)) [] (fun k => k = some .genid) (fun o => o = none) :=
    (reads_optional_none (refuses_expect .kwRec)).mono (fun _ hk => hk ▸ by decide) fun _ h => h
  have hdef := (reads_sumDef n levels).mono (fun k (hk : k = none) => hk ▸ by decide) fun _ h => h
  unfold letGroup separated sumProgram
  refine reads_expect_bind fun _ _ => reads_bind hrec (fun _ _ => ?_) (fun _ _ => rfl)
  simp only [bind_assoc, pure_bind]
  refine reads_bind_last hdef fun d hd => ?_
  refine reads_bind_last (reads_many_none fun _ hk => hk ▸ rfl) ?_
  rintro _ rfl
  refine reads_newSiteFrom_bind fun _ => reads_pure ?_
  obtain ⟨e, he, hheight⟩ := hd
  refine ⟨e, List.mem_append_left _ (List.mem_append_left _ he), hheight⟩

lemma reads_sumProgram (n levels : Nat) :
    Reads (definition (deeper (levels + 2))) (sumProgram n) (fun k => k = none)
      (fun d => HoldsHigher n d.nodes) := by
  have hgroup := reads_sumGroup n levels
  unfold definition
  unfold sumProgram at hgroup ⊢
  exact reads_peekKind_bind (reads_bind_last hgroup fun g hg => reads_pure hg)

/-- However many operators there are, they are read as one program, which is higher than their
number. -/
lemma parse_sumProgram (n : Nat) {tokens : List Token} (htokens : tokens.map word = sumProgram n) :
    ∃ program, (parse tokens).program = some program ∧ HoldsHigher n program.nodes := by
  have hahead : ahead tokens.toArray ParserState.initial = sumProgram n ++ [] := by
    rw [List.append_nil, ← htokens]
    rfl
  have hsize : ParserState.initial.index < tokens.toArray.size := by
    have hlength := length_ahead tokens.toArray ParserState.initial
    rw [hahead, sumProgram] at hlength
    simp only [List.cons_append, List.length_cons] at hlength
    omega
  obtain ⟨first, s, hrun, hhigher, hend, -⟩ :=
    reads_sumProgram n 254 tokens.toArray ParserState.initial [] hahead rfl
  have hdone : s.index = tokens.toArray.size := by
    have hleft := length_ahead tokens.toArray s
    rw [hend, List.length_nil] at hleft
    rcases definition_run hsize with ⟨first', s', hrun', -, hle⟩ | ⟨e, e', s', hrun', -⟩
    · cases hrun.symm.trans hrun'
      omega
    · cases hrun.symm.trans hrun'
  have hrounds : Rounds tokens.toArray ParserState.initial
      [⟨ParserState.initial.index, s.index, .ok first⟩] s := .read hsize hrun (.done hdone)
  refine ⟨⟨[first], s.nextId⟩, ?_, ?_⟩
  · rw [hrounds.parse]
    rfl
  · obtain ⟨e, he, hheight⟩ := hhigher
    exact ⟨e, List.mem_flatMap.mpr ⟨first, List.mem_cons_self, he⟩, hheight⟩

/-- How the limit on nesting bounds the trees of a program. -/
structure BoundedByNesting (program : Program) : Prop where
  /-- Nothing is nested deeper than the limit. -/
  nesting : ∀ n ∈ program.nodes, nodeNesting n ≤ maxNesting
  /-- An expression without chains of more than `m` operators. -/
  expr : ∀ e, .expr e ∈ program.nodes → ∀ m, (∀ e', .expr e' ∈ e.nodes → operators e' ≤ m) →
    nodeHeight (.expr e) ≤ (m + 3) * maxNesting
  pattern : ∀ p, .pattern p ∈ program.nodes → nodeHeight (.pattern p) ≤ maxNesting + 1
  /-- A type in terms of its longest chain of `ref`. -/
  ty : ∀ n ∈ program.nodes, ∀ ty ∈ writtenTypes n,
    tyHeight ty ≤ (tyLongestRefs ty + 1) * maxNesting + 1

/-- The trees of a program that was read are as high as the limit on nesting allows together with
the longest chains in them. -/
theorem parse_boundedByNesting (tokens : List Token) (program : Program)
    (h : (parse tokens).program = some program) : BoundedByNesting program := by
  have hnesting := nodeNesting_le_maxNesting h
  refine ⟨hnesting, fun e he m hchain => ?_, fun p hp => ?_, fun n hn ty hty => ?_⟩
  · exact Nat.le_trans (nodeHeight_le_nesting hchain) (Nat.mul_le_mul_left _ (hnesting _ he))
  · exact Nat.le_trans (patternHeight_le_nesting p) (Nat.succ_le_succ (hnesting _ hp))
  · have hown : tyNesting ty ≤ nodeNesting n := by
      refine Nat.le_trans ?_ (ownNesting_le n)
      exact (foldr_max_le_iff.mp (Nat.le_refl _)).2 _ (List.mem_map_of_mem hty)
    have hlimit := Nat.mul_le_mul_left (tyLongestRefs ty + 1) (Nat.le_trans hown (hnesting n hn))
    exact Nat.le_trans (tyHeight_le_nesting ty) (Nat.succ_le_succ hlimit)

theorem matchingTokens_boundedByNesting :
    ∃ program, (parse matchingTokens).program = some program ∧ program.nodeCount = 15 ∧
      BoundedByNesting program := by
  have hcount : (parse matchingTokens).program.map Program.nodeCount = some 15 := by
    decide +kernel
  obtain ⟨program, h, hnodes⟩ := Option.map_eq_some_iff.mp hcount
  exact ⟨program, h, hnodes, parse_boundedByNesting matchingTokens program h⟩

/-- The tokens of `let x = 1 + 1 ..` with a number of operators. -/
def sumTokens (n : Nat) : List Token :=
  (sumProgram n).map fun w => Token.made w.1 w.2 1 1

/-- A chain of operators is not nested at all, and yet higher than four times the limit. -/
theorem sumTokens_higher :
    ∃ program e, (parse (sumTokens (4 * maxNesting))).program = some program ∧
      .expr e ∈ program.nodes ∧ 4 * maxNesting < nodeHeight (.expr e) := by
  have hwords : (sumTokens (4 * maxNesting)).map word = sumProgram (4 * maxNesting) := by
    rw [sumTokens, List.map_map]
    exact List.map_id _
  obtain ⟨program, hprogram, e, he, hheight⟩ := parse_sumProgram _ hwords
  exact ⟨program, e, hprogram, he, hheight⟩

end Llama.Proofs
