import Llama.Proofs.PostOrder
import Llama.Proofs.PrefilledTypes

/-!
# The numbers of nodes

A parser draws the number of a node after those of all nodes below it and before any other, so
that the nodes of a program, listed in post-order, are counted from zero without a gap.
`Numbers before p after` says of a parser `p` that it turns a state in which the numbers `before`
were drawn since some moment into one in which, if it succeeds with `a`, the numbers `after a`
were drawn since then.
-/

namespace Llama.Proofs

open Llama.Parser Llama.Grammar

variable {α β : Type} {d : Deeper} {p item : Parser α} {f : α → Parser β} {after : α → List NodeId}
  {nodes : α → List Node}

def Numbers (before : List NodeId) (p : Parser α) (after : α → List NodeId) : Prop :=
  ∀ start tokens s a s', List.range s.nextId = List.range start ++ before →
    p tokens s = (.ok a, s') → List.range s'.nextId = List.range start ++ after a

/-- The parser draws the numbers of the nodes of its result, and no others. -/
def Yields (p : Parser α) (nodes : α → List Node) : Prop :=
  ∀ before, Numbers before p fun a => before ++ numbers (nodes a)

/-- The parser draws no number, whether it succeeds or not. -/
def Still (p : Parser α) : Prop := ∀ tokens s, (p tokens s).2.nextId = s.nextId

lemma still_pure (a : α) : Still (pure a) := fun _ _ => rfl

lemma still_read (f : Array Token → ParserState → α) : Still (read f) := fun _ _ => rfl

lemma still_bind (hp : Still p) (hf : ∀ a, Still (f a)) : Still (p >>= f) := by
  intro tokens s
  exact bind_run_preserves (R := fun s s' => s'.nextId = s.nextId)
    (fun _ _ _ h h' => h'.trans h) (hp tokens s) fun a s' => hf a tokens s'

lemma still_ite {c : Prop} [Decidable c] {q : Parser α} (hp : Still p) (hq : Still q) :
    Still (if c then p else q) := by
  by_cases hc : c
  · rw [if_pos hc]
    exact hp
  · rw [if_neg hc]
    exact hq

lemma still_peekKind : Still peekKind := still_read _

lemma still_isAt (kind : TokenKind) : Still (isAt kind) :=
  still_bind still_peekKind fun _ => still_pure _

lemma still_startsWith (starts : TokenKind → Bool) : Still (startsWith starts) :=
  still_bind still_peekKind fun _ => still_pure _

lemma still_advance : Still advance := by
  intro tokens s
  unfold advance
  split <;> rfl

lemma still_failWith (e : SyntaxError) : Still (failWith e : Parser α) := fun _ _ => rfl

lemma still_unexpected (expected : String) : Still (unexpected expected : Parser α) :=
  fun _ _ => rfl

lemma still_tooDeep : Still (tooDeep : Parser α) := fun _ _ => rfl

lemma still_tokenWhere (accepts : TokenKind → Bool) (expected : String) :
    Still (tokenWhere accepts expected) := by
  refine still_bind (still_read _) fun next => ?_
  cases next with
  | none => exact still_unexpected _
  | some token =>
    exact still_ite (still_bind still_advance fun _ => still_pure _) (still_unexpected _)

lemma still_expect (kind : TokenKind) : Still (expect kind) := still_tokenWhere _ _

lemma still_label (hp : Still p) (name : String) : Still (label p name) := by
  refine still_bind (fun tokens s => hp tokens s) fun result => ?_
  cases result with
  | ok a => exact still_pure a
  | error e => exact still_failWith _

lemma still_optional (hp : Still p) : Still (optional p) := by
  refine still_bind (still_read _) fun start => ?_
  refine still_bind (fun tokens s => hp tokens s) fun result => ?_
  cases result with
  | ok a => exact still_pure _
  | error e => exact fun _ _ => rfl

lemma still_many (starts : TokenKind → Bool) (hitem : Still item) : Still (many starts item) := by
  refine still_bind (still_read _) fun count => ?_
  induction count with
  | zero => exact still_pure _
  | succ n ih =>
    refine still_bind (still_startsWith starts) fun _ => still_ite ?_ (still_pure _)
    exact still_bind hitem fun _ => still_bind ih fun _ => still_pure _

lemma still_separated (separator : TokenKind) (hitem : Still item) :
    Still (separated separator item) := by
  refine still_bind hitem fun _ => still_bind (still_many _ ?_) fun _ => still_pure _
  exact still_bind (still_expect separator) fun _ => hitem

lemma still_between (opening closing : TokenKind) (hitem : Still item) :
    Still (between opening closing item) :=
  still_bind (still_expect opening) fun _ => still_bind hitem fun _ =>
    still_bind (still_expect closing) fun _ => still_pure _

lemma still_genid : Still genid :=
  still_bind (still_label (still_expect _) _) fun _ => still_pure _

lemma still_conid : Still conid :=
  still_bind (still_label (still_expect _) _) fun _ => still_pure _

lemma still_typeName : Still typeName :=
  still_bind (still_tokenWhere _ _) fun _ => still_pure _

lemma still_constant : Still constant := by
  refine still_bind (still_read _) fun e => still_bind (still_startsWith _) fun _ => ?_
  refine still_ite (still_bind still_advance fun next => ?_) (still_failWith _)
  cases next with
  | none => exact still_failWith _
  | some token =>
    dsimp only
    cases constantOf token.kind token.value with
    | ok value => exact still_pure _
    | error note => exact still_failWith _

/-! ### Types have no nodes -/

lemma still_typeAtom (hty : Still d.ty) (harray : Still d.arrayTy) : Still (typeAtom d) := by
  refine still_bind still_peekKind fun kind => ?_
  split
  · exact still_bind still_genid fun _ => still_pure _
  · exact still_between _ _ hty
  · exact harray
  · split
    · exact still_bind still_advance fun _ => still_pure _
    · exact still_unexpected _
  · exact still_unexpected _

lemma still_typeOperand (hty : Still d.ty) (harray : Still d.arrayTy) : Still (typeOperand d) :=
  still_bind (still_typeAtom hty harray) fun _ =>
    still_bind (still_many _ (still_expect _)) fun _ => still_pure _

lemma still_arrowType (hty : Still d.ty) (harray : Still d.arrayTy) : Still (arrowType d) := by
  refine still_bind (still_typeOperand hty harray) fun _ => still_bind (still_isAt _) fun _ => ?_
  refine still_ite (still_bind (still_expect _) fun _ => ?_) (still_pure _)
  exact still_bind hty fun _ => still_pure _

lemma still_arrayType (hty : Still d.ty) (harray : Still d.arrayTy) : Still (arrayType d) := by
  have hdimensions : Still dimensions :=
    still_bind (still_isAt _) fun _ => still_ite
      (still_bind (still_between _ _ (still_separated _ (still_expect _))) fun _ => still_pure _)
      (still_pure _)
  exact still_bind (still_expect _) fun _ => still_bind hdimensions fun _ =>
    still_bind (still_expect _) fun _ =>
      still_bind (still_typeOperand hty harray) fun _ => still_pure _

lemma still_annotated (hty : Still d.ty) : Still (optionalType d) :=
  still_optional (still_bind (still_expect _) fun _ => hty)

section

variable {before : List NodeId}

lemma numbers_pure {a : α} (h : after a = before) : Numbers before (pure a) after := by
  intro start tokens s a' s' hs hrun
  cases hrun
  rw [hs, h]

lemma numbers_bind {mid : α → List NodeId} {after : β → List NodeId} (hp : Numbers before p mid)
    (hf : ∀ a, Numbers (mid a) (f a) after) : Numbers before (p >>= f) after := by
  intro start tokens s b s' hs hrun
  obtain ⟨a, s₁, hfirst, hrest⟩ := exists_of_bind_run hrun
  exact hf a start tokens s₁ b s' (hp start tokens s a s₁ hs hfirst) hrest

lemma Still.numbers (hp : Still p) : Numbers before p fun _ => before := by
  intro start tokens s a s' hs hrun
  have hsame := hp tokens s
  rw [hrun] at hsame
  rw [hsame, hs]

/-- A step that draws no number comes before the others. -/
lemma numbers_skip {after : β → List NodeId} (hp : Still p) (hf : ∀ a, Numbers before (f a) after) :
    Numbers before (p >>= f) after :=
  numbers_bind hp.numbers hf

lemma numbers_ite {c : Prop} [Decidable c] {q : Parser α} (hp : Numbers before p after)
    (hq : Numbers before q after) : Numbers before (if c then p else q) after := by
  by_cases hc : c
  · rw [if_pos hc]
    exact hp
  · rw [if_neg hc]
    exact hq

lemma numbers_failWith {e : SyntaxError} : Numbers before (failWith e) after := by
  intro start tokens s a s' _ hrun
  cases hrun

lemma numbers_unexpected {expected : String} : Numbers before (unexpected expected) after := by
  intro start tokens s a s' _ hrun
  cases hrun

lemma numbers_newSite (span : Span) :
    Numbers before (newSite span) fun site => before ++ [site.id] := by
  intro start tokens s site s' hs hrun
  cases hrun
  rw [List.range_succ, hs, List.append_assoc]

lemma numbers_tooDeep : Numbers before tooDeep after := by
  intro start tokens s a s' _ hrun
  cases hrun

lemma numbers_newSiteFrom (span : Span) :
    Numbers before (newSiteFrom span) fun site => before ++ [site.id] :=
  numbers_skip (still_read _) fun _ => numbers_newSite _

end

lemma yields_many (starts : TokenKind → Bool) (hitem : Yields item nodes) :
    Yields (many starts item) fun l => l.flatMap nodes := by
  intro before
  refine numbers_skip (still_read _) fun count => ?_
  induction count generalizing before with
  | zero => exact numbers_pure (List.append_nil before)
  | succ n ih =>
    refine numbers_skip (still_startsWith starts) fun _ => numbers_ite ?_ ?_
    · refine numbers_bind (hitem before) fun first => numbers_bind (ih _) fun rest => ?_
      exact numbers_pure (by simp)
    · exact numbers_pure (List.append_nil before)

lemma yields_separated (separator : TokenKind) (hitem : Yields item nodes) :
    Yields (separated separator item) fun l => l.flatMap nodes := by
  intro before
  have hnext : Yields (do let _ ← expect separator; item) nodes :=
    fun before => numbers_skip (still_expect separator) fun _ => hitem before
  refine numbers_bind (hitem before) fun first => ?_
  exact numbers_bind (yields_many _ hnext _) fun rest => numbers_pure (by simp)

lemma yields_between (opening closing : TokenKind) (hitem : Yields item nodes) :
    Yields (between opening closing item) nodes := fun before =>
  numbers_skip (still_expect opening) fun _ => numbers_bind (hitem before) fun _ =>
    numbers_skip (still_expect closing) fun _ => numbers_pure rfl

attribute [local simp] Pattern.nodes Expr.nodes Clause.nodes LetGroup.nodes Def.nodes Node.site
  Pattern.site Expr.site Clause.site LetGroup.site Def.site

/-- What stands one level deeper draws the numbers of its nodes. -/
structure DeeperYields (d : Deeper) : Prop where
  exprFrom : ∀ rank, Yields (d.exprFrom rank) Expr.nodes
  operand : Yields d.operand Expr.nodes
  simple : Yields d.simple Expr.nodes
  ty : Still d.ty
  arrayTy : Still d.arrayTy
  pattern : Yields d.pattern Pattern.nodes

lemma yields_signedConstant (literal : TokenKind) (negative : Bool) :
    Yields (signedConstant literal negative) Pattern.nodes := by
  intro before
  refine numbers_skip still_advance fun _ => numbers_skip (still_read _) fun _ => ?_
  refine numbers_skip (still_read _) fun e => numbers_skip (still_expect _) fun number => ?_
  split
  · exact numbers_bind (numbers_newSite _) fun _ => numbers_pure rfl
  · exact numbers_failWith

lemma yields_simplePattern (h : DeeperYields d) : Yields (simplePattern d) Pattern.nodes := by
  intro before
  refine numbers_skip still_peekKind fun kind => ?_
  have hconstant : Numbers before (do
      let read ← constant
      return Pattern.const (← newSite read.2) read.1) fun p => before ++ numbers p.nodes :=
    numbers_skip still_constant fun _ => numbers_bind (numbers_newSite _) fun _ =>
      numbers_pure rfl
  split
  · exact yields_between _ _ h.pattern before
  · exact numbers_skip still_genid fun _ => numbers_bind (numbers_newSite _) fun _ =>
      numbers_pure rfl
  · exact numbers_skip still_conid fun _ => numbers_bind (numbers_newSite _) fun _ =>
      numbers_pure rfl
  · exact yields_signedConstant _ _ before
  · exact yields_signedConstant _ _ before
  · exact yields_signedConstant _ _ before
  · exact yields_signedConstant _ _ before
  · exact hconstant
  · exact hconstant
  · exact hconstant
  · exact hconstant
  · exact hconstant
  · exact numbers_unexpected

lemma yields_pattern (h : DeeperYields d) : Yields (pattern d) Pattern.nodes := by
  intro before
  refine numbers_skip (still_isAt _) fun _ => numbers_ite ?_ (yields_simplePattern h before)
  refine numbers_skip still_conid fun _ => ?_
  refine numbers_bind (yields_many _ (yields_simplePattern h) before) fun args => ?_
  refine numbers_bind (numbers_newSiteFrom _) fun site => numbers_pure ?_
  simp [patternNodes_eq_flatMap]

lemma yields_wholeExpr (h : DeeperYields d) : Yields (wholeExpr d) Expr.nodes :=
  h.exprFrom anyRank

lemma yields_indices (h : DeeperYields d) :
    Yields (between .lBracket .rBracket (exprList d)) Expr.nodesOfList := by
  have hlist := yields_between .lBracket .rBracket
    (yields_separated .comma (yields_wholeExpr h))
  rw [funext exprNodes_eq_flatMap]
  exact hlist

lemma yields_param (h : DeeperYields d) : Yields (param d) fun p => [.param p] := by
  intro before
  refine numbers_skip (still_isAt _) fun _ => numbers_ite ?_ ?_
  · exact numbers_skip still_genid fun _ => numbers_bind (numbers_newSite _) fun _ =>
      numbers_pure rfl
  · refine numbers_skip (still_label (still_expect _) _) fun _ => ?_
    refine numbers_skip still_genid fun _ => numbers_skip (still_expect _) fun _ => ?_
    refine numbers_skip h.ty fun _ => numbers_skip (still_expect _) fun _ => ?_
    exact numbers_bind (numbers_newSite _) fun _ => numbers_pure rfl

lemma yields_mutableDef (h : DeeperYields d) : Yields (mutableDef d) Def.nodes := by
  intro before
  refine numbers_skip (still_expect _) fun _ => numbers_skip still_genid fun _ => ?_
  refine numbers_skip (still_isAt _) fun _ => numbers_ite ?_ ?_
  · refine numbers_bind (yields_indices h before) fun dims => ?_
    refine numbers_skip (still_annotated h.ty) fun _ => ?_
    refine numbers_bind (numbers_newSiteFrom _) fun site => numbers_pure ?_
    simp
  · refine numbers_skip (still_annotated h.ty) fun _ => ?_
    exact numbers_bind (numbers_newSiteFrom _) fun site => numbers_pure rfl

lemma yields_functionDef (h : DeeperYields d) : Yields (functionDef d) Def.nodes := by
  intro before
  refine numbers_skip (still_label still_genid _) fun _ => ?_
  have hparams : Yields (many startsParam (param d)) fun params => params.map .param := by
    simpa only [← List.map_eq_flatMap] using yields_many startsParam (yields_param h)
  refine numbers_bind (hparams before) fun params => ?_
  refine numbers_skip (still_annotated h.ty) fun _ => numbers_skip (still_expect _) fun _ => ?_
  refine numbers_bind (yields_wholeExpr h _) fun body => ?_
  refine numbers_bind (numbers_newSite _) fun site => ?_
  cases params with
  | nil => exact numbers_pure (by simp)
  | cons p params => exact numbers_pure (by simp)

lemma yields_letGroup (h : DeeperYields d) : Yields (letGroup d) LetGroup.nodes := by
  intro before
  have hdef : Yields (letDef d) Def.nodes := fun before =>
    numbers_skip (still_isAt _) fun _ =>
      numbers_ite (yields_mutableDef h before) (yields_functionDef h before)
  refine numbers_skip (still_expect _) fun _ => ?_
  refine numbers_skip (still_optional (still_expect _)) fun _ => ?_
  refine numbers_bind (yields_separated _ hdef before) fun defs => ?_
  refine numbers_bind (numbers_newSiteFrom _) fun site => numbers_pure ?_
  simp [defNodes_eq_flatMap]

lemma yields_variableOrElement (h : DeeperYields d) :
    Yields (variableOrElement d) Expr.nodes := by
  intro before
  refine numbers_skip still_genid fun _ => numbers_skip (still_isAt _) fun _ => numbers_ite ?_ ?_
  · refine numbers_bind (yields_indices h before) fun indices => ?_
    exact numbers_bind (numbers_newSiteFrom _) fun site =>
      numbers_pure (by simp)
  · exact numbers_bind (numbers_newSite _) fun _ => numbers_pure rfl

lemma yields_parenthesized (h : DeeperYields d) : Yields (parenthesized d) Expr.nodes := by
  intro before
  refine numbers_skip (still_expect _) fun _ => numbers_skip (still_isAt _) fun _ => ?_
  refine numbers_ite ?_ ?_
  · refine numbers_skip (still_expect _) fun _ => ?_
    exact numbers_bind (numbers_newSite _) fun _ => numbers_pure rfl
  · refine numbers_bind (yields_wholeExpr h before) fun inner => ?_
    exact numbers_skip (still_expect _) fun _ => numbers_pure rfl

lemma yields_simpleExpr (h : DeeperYields d) : Yields (simpleExpr d) Expr.nodes := by
  intro before
  refine numbers_skip still_peekKind fun kind => ?_
  split
  · exact yields_variableOrElement h before
  · exact numbers_skip still_conid fun _ => numbers_bind (numbers_newSite _) fun _ =>
      numbers_pure rfl
  · refine numbers_skip (still_expect _) fun _ => numbers_bind (h.simple before) fun operand => ?_
    exact numbers_bind (numbers_newSite _) fun site =>
      numbers_pure (by simp)
  · exact yields_parenthesized h before
  · refine numbers_ite (numbers_skip still_constant fun _ => ?_) numbers_unexpected
    exact numbers_bind (numbers_newSite _) fun _ => numbers_pure rfl
  · exact numbers_unexpected

lemma yields_arguments (h : DeeperYields d) :
    Yields (many startsSimple (simpleExpr d)) Expr.nodesOfList := by
  rw [funext exprNodes_eq_flatMap]
  exact yields_many _ (yields_simpleExpr h)

lemma yields_variableOrCall (h : DeeperYields d) : Yields (variableOrCall d) Expr.nodes := by
  intro before
  refine numbers_skip still_genid fun _ => numbers_bind (yields_arguments h before) fun args => ?_
  cases args with
  | nil =>
    exact numbers_bind (numbers_newSite _) fun _ =>
      numbers_pure (by simp [Expr.nodesOfList])
  | cons e es =>
    exact numbers_bind (numbers_newSiteFrom _) fun _ =>
      numbers_pure (by simp)

lemma yields_construction (h : DeeperYields d) : Yields (construction d) Expr.nodes := by
  intro before
  refine numbers_skip still_conid fun _ => numbers_bind (yields_arguments h before) fun args => ?_
  cases args with
  | nil =>
    exact numbers_bind (numbers_newSite _) fun _ =>
      numbers_pure (by simp [Expr.nodesOfList])
  | cons e es =>
    exact numbers_bind (numbers_newSiteFrom _) fun _ =>
      numbers_pure (by simp)

lemma yields_arrayDim : Yields arrayDim Expr.nodes := by
  intro before
  have hdimension : Still dimensionNumber := by
    refine still_bind (still_isAt _) fun _ => still_ite ?_ (still_pure _)
    refine still_bind (still_read _) fun e => still_bind (still_expect _) fun token => ?_
    split
    · exact still_pure _
    · exact still_failWith _
  refine numbers_skip (still_expect _) fun _ => numbers_skip hdimension fun _ => ?_
  refine numbers_skip still_genid fun _ => ?_
  exact numbers_bind (numbers_newSite _) fun _ => numbers_pure rfl

lemma yields_newRef (h : DeeperYields d) : Yields (newRef d) Expr.nodes := fun _ =>
  numbers_skip (still_expect _) fun _ => numbers_skip h.ty fun _ =>
    numbers_bind (numbers_newSiteFrom _) fun _ => numbers_pure rfl

lemma yields_forLoop (h : DeeperYields d) : Yields (forLoop d) Expr.nodes := by
  intro before
  refine numbers_skip (still_expect _) fun _ => numbers_skip still_genid fun _ => ?_
  refine numbers_skip (still_expect _) fun _ => ?_
  refine numbers_bind (yields_wholeExpr h _) fun first => ?_
  refine numbers_skip (still_tokenWhere _ _) fun _ => ?_
  refine numbers_bind (yields_wholeExpr h _) fun last => numbers_skip (still_expect _) fun _ => ?_
  refine numbers_bind (yields_wholeExpr h _) fun body => numbers_skip (still_expect _) fun _ => ?_
  exact numbers_bind (numbers_newSiteFrom _) fun site =>
    numbers_pure (by simp)

lemma yields_whileLoop (h : DeeperYields d) : Yields (whileLoop d) Expr.nodes := by
  intro before
  refine numbers_skip (still_expect _) fun _ => ?_
  refine numbers_bind (yields_wholeExpr h _) fun condition => ?_
  refine numbers_skip (still_expect _) fun _ => ?_
  refine numbers_bind (yields_wholeExpr h _) fun body => numbers_skip (still_expect _) fun _ => ?_
  exact numbers_bind (numbers_newSiteFrom _) fun site =>
    numbers_pure (by simp)

lemma yields_conditional (h : DeeperYields d) : Yields (conditional d) Expr.nodes := by
  intro before
  refine numbers_skip (still_expect _) fun _ => ?_
  refine numbers_bind (yields_wholeExpr h _) fun condition => ?_
  refine numbers_skip (still_expect _) fun _ => ?_
  refine numbers_bind (h.exprFrom _ _) fun positive => ?_
  refine numbers_skip (still_isAt _) fun _ => numbers_ite ?_ ?_
  · refine numbers_skip (still_expect _) fun _ => numbers_bind (h.exprFrom _ _) fun negative => ?_
    exact numbers_bind (numbers_newSiteFrom _) fun site =>
      numbers_pure (by simp)
  · exact numbers_bind (numbers_newSiteFrom _) fun site =>
      numbers_pure (by simp)

lemma yields_clause (h : DeeperYields d) : Yields (clause d) Clause.nodes := by
  intro before
  refine numbers_bind (h.pattern _) fun pattern => numbers_skip (still_expect _) fun _ => ?_
  refine numbers_bind (yields_wholeExpr h _) fun body => ?_
  exact numbers_bind (numbers_newSite _) fun site =>
    numbers_pure (by simp)

lemma yields_matchWith (h : DeeperYields d) : Yields (matchWith d) Expr.nodes := by
  intro before
  refine numbers_skip (still_expect _) fun _ => ?_
  refine numbers_bind (yields_wholeExpr h _) fun scrutinee => ?_
  refine numbers_skip (still_expect _) fun _ => ?_
  refine numbers_bind (yields_separated _ (yields_clause h) _) fun clauses => ?_
  refine numbers_skip (still_expect _) fun _ => ?_
  exact numbers_bind (numbers_newSiteFrom _) fun site =>
    numbers_pure (by simp [clauseNodes_eq_flatMap])

lemma yields_letIn (h : DeeperYields d) : Yields (letIn d) Expr.nodes := by
  intro before
  refine numbers_bind (yields_letGroup h _) fun group => numbers_skip (still_expect _) fun _ => ?_
  refine numbers_bind (yields_wholeExpr h _) fun body => ?_
  exact numbers_bind (numbers_newSite _) fun site =>
    numbers_pure (by simp)

lemma yields_primary (h : DeeperYields d) : Yields (primary d) Expr.nodes := by
  intro before
  refine numbers_skip still_peekKind fun kind => ?_
  split
  · refine numbers_skip (still_read _) fun _ => ?_
    exact numbers_ite (yields_simpleExpr h before) (yields_variableOrCall h before)
  · exact yields_construction h before
  · exact yields_arrayDim before
  · exact yields_newRef h before
  · exact yields_between _ _ (yields_wholeExpr h) before
  · exact yields_forLoop h before
  · exact yields_whileLoop h before
  · exact yields_conditional h before
  · exact yields_matchWith h before
  · exact yields_letIn h before
  · exact yields_simpleExpr h before

/-- The sign of the least integer is part of its constant and has no number of its own. -/
lemma numbers_leastInteger? {before : List NodeId} (sign : Span) :
    Numbers before (leastInteger? sign) fun least =>
      before ++ numbers (least.toList.flatMap Expr.nodes) := by
  have hnone : Numbers before (pure none) fun least : Option Expr =>
      before ++ numbers (least.toList.flatMap Expr.nodes) := numbers_pure (List.append_nil before)
  refine numbers_skip (still_read _) fun next => ?_
  cases next with
  | none => exact hnone
  | some token =>
    refine numbers_ite ?_ hnone
    split
    · refine numbers_skip still_advance fun _ => ?_
      exact numbers_bind (numbers_newSite _) fun _ => numbers_pure rfl
    · exact hnone

lemma yields_prefixed (h : DeeperYields d) (op : UnaryOp) : Yields (prefixed d op) Expr.nodes := by
  intro before
  refine numbers_skip (still_read _) fun start => ?_
  have hnone : Numbers before (pure none) fun least : Option Expr =>
      before ++ numbers (least.toList.flatMap Expr.nodes) := numbers_pure (List.append_nil before)
  refine numbers_ite (numbers_bind (numbers_leastInteger? start) ?_) (numbers_bind hnone ?_)
  all_goals
    intro least
    cases least with
    | some e => exact numbers_pure (by simp)
    | none =>
      refine numbers_bind (h.operand _) fun operand => ?_
      exact numbers_bind (numbers_newSite _) fun site => numbers_pure (by simp)

lemma yields_unary (h : DeeperYields d) : Yields (unary d) Expr.nodes := by
  intro before
  refine numbers_skip still_peekKind fun kind => ?_
  split
  · exact yields_primary h before
  · refine numbers_skip still_advance fun _ => numbers_skip (still_read _) fun _ => ?_
    refine numbers_bind (h.operand _) fun operand => ?_
    exact numbers_bind (numbers_newSite _) fun site =>
      numbers_pure (by simp)
  · split
    · exact numbers_skip still_advance fun _ => yields_prefixed h _ before
    · exact yields_primary h before

/-- The number of an operator is drawn after those of both operands, and its application becomes
the left operand of the next operator. -/
lemma numbers_climbUpTo (h : DeeperYields d) (rank count : Nat) (before : List NodeId)
    (left : Expr) (chained : Option Nat) :
    Numbers (before ++ numbers left.nodes) (climbUpTo d rank count left chained)
      fun e => before ++ numbers e.nodes := by
  induction count generalizing left chained with
  | zero => exact numbers_pure rfl
  | succ n ih =>
    refine numbers_skip still_peekKind fun kind => ?_
    split
    · exact numbers_pure rfl
    · next op _ =>
      refine numbers_ite (numbers_pure rfl) (numbers_ite ?_ ?_)
      · exact numbers_skip (still_read _) fun _ => numbers_failWith
      · refine numbers_skip still_advance fun _ => numbers_bind (h.exprFrom _ _) fun right => ?_
        refine numbers_bind (numbers_newSite _) fun site => ?_
        have hbinary : before ++ numbers left.nodes ++ numbers right.nodes ++ [site.id] =
            before ++ numbers (Expr.binary site op left right).nodes := by
          simp
        rw [hbinary]
        exact ih _ _

lemma yields_exprFrom (h : DeeperYields d) (rank : Nat) : Yields (exprFrom d rank) Expr.nodes :=
  fun before => numbers_bind (yields_unary h before) fun _ =>
    numbers_skip (still_read _) fun _ => numbers_climbUpTo h rank _ before _ _

/-- However many levels are left, what stands below draws the numbers of its nodes. -/
lemma deeper_yields (levels : Nat) : DeeperYields (deeper levels) := by
  induction levels with
  | zero =>
    exact ⟨fun _ _ => numbers_tooDeep, fun _ => numbers_tooDeep, fun _ => numbers_tooDeep,
      still_tooDeep, still_tooDeep, fun _ => numbers_tooDeep⟩
  | succ levels ih =>
    rw [deeper_succ]
    exact ⟨yields_exprFrom ih, yields_unary ih, yields_simpleExpr ih,
      still_arrowType ih.ty ih.arrayTy, still_arrayType ih.ty ih.arrayTy, yields_pattern ih⟩

lemma yields_constructorDef (h : DeeperYields d) :
    Yields (constructorDef d) fun c => [.constructor c] := by
  intro before
  refine numbers_skip still_conid fun _ => numbers_skip (still_isAt _) fun _ => numbers_ite ?_ ?_
  · refine numbers_skip (still_expect _) fun _ => numbers_skip h.ty fun _ => ?_
    refine numbers_skip (still_many _ h.ty) fun _ => ?_
    exact numbers_bind (numbers_newSiteFrom _) fun _ => numbers_pure rfl
  · exact numbers_bind (numbers_newSiteFrom _) fun _ => numbers_pure rfl

lemma yields_typeDef (h : DeeperYields d) : Yields (typeDef d) TypeDef.nodes := by
  intro before
  have hconstructors : Yields (separated .pipe (constructorDef d))
      fun constructors => constructors.map .constructor := by
    simpa only [← List.map_eq_flatMap] using yields_separated .pipe (yields_constructorDef h)
  refine numbers_skip still_typeName fun _ => numbers_skip (still_expect _) fun _ => ?_
  refine numbers_bind (hconstructors before) fun constructors => ?_
  exact numbers_bind (numbers_newSiteFrom _) fun site =>
    numbers_pure (by simp [TypeDef.nodes])

lemma yields_typeGroup (h : DeeperYields d) : Yields (typeGroup d) TypeGroup.nodes := by
  intro before
  refine numbers_skip (still_expect _) fun _ => ?_
  refine numbers_bind (yields_separated _ (yields_typeDef h) before) fun defs => ?_
  refine numbers_bind (numbers_newSiteFrom _) fun site => ?_
  exact numbers_skip (fun _ _ => rfl) fun _ =>
    numbers_pure (by simp [TypeGroup.nodes])

lemma yields_definition (h : DeeperYields d) : Yields (definition d) Definition.nodes := by
  intro before
  refine numbers_skip still_peekKind fun kind => ?_
  split
  · exact numbers_bind (yields_typeGroup h before) fun _ => numbers_pure rfl
  · exact numbers_bind (yields_letGroup h before) fun _ => numbers_pure rfl
  · exact numbers_skip (still_read _) fun _ => numbers_failWith

/-- Whatever is reported stays reported. -/
lemma definitionsUpTo_grow (hscans : ∀ {placed}, DeeperScans placed d) (tokens : Array Token)
    (n : Nat) (s : ParserState) : s.reports <+: (definitionsUpTo d n tokens s).2.reports := by
  induction n generalizing s with
  | zero => exact List.prefix_refl _
  | succ n ih =>
    by_cases hsize : s.index < tokens.size
    · have hentered := definition_entered hscans tokens { s with furthest := none }
      rcases definition_ends hscans (s := { s with furthest := none }) hsize rfl with
        ⟨first, s₁, hrun, -⟩ | ⟨e', e, s₁, hrun, hkept, -⟩
      · rw [hrun] at hentered
        rw [definitionsUpTo_succ d n (by omega), hrun]
        have hfirst : s.reports <+: s₁.reports := ⟨_, hentered.reports.symm⟩
        have hrest := hfirst.trans (ih s₁)
        cases hmore : definitionsUpTo d n tokens s₁ with
        | mk result s₂ =>
          rw [hmore] at hrest
          cases result with
          | ok rest =>
            dsimp only
            rw [bind_run_ok hmore]
            exact hrest
          | error e =>
            dsimp only
            rw [bind_run_error hmore]
            exact hrest
      · rw [hrun] at hentered
        rw [definitionsUpTo_failed n hsize hrun hkept]
        have hfirst : s.reports <+: s₁.reports := ⟨_, hentered.reports.symm⟩
        have hreported : s₁.reports <+: (resumed tokens s.index e s₁).reports :=
          List.prefix_append _ _
        exact (hfirst.trans hreported).trans (ih _)
    · rw [definitionsUpTo, bind_run_ok (remaining_run _ _), if_pos (by omega)]
      exact List.prefix_refl _

/-- If there is no syntax error, the definitions that were read have drawn all numbers since. A
definition that fails may have drawn some that no node has, but then there is a syntax error. -/
lemma range_definitionsUpTo (hyields : DeeperYields d)
    (hscans : ∀ {placed}, DeeperScans placed d) {tokens : Array Token} (n : Nat)
    {s s' : ParserState} {ds : List Definition}
    (hrun : definitionsUpTo d n tokens s = (.ok ds, s')) (hclean : reportedSyntax s' = []) :
    List.range s'.nextId = List.range s.nextId ++ numbers (ds.flatMap Definition.nodes) := by
  induction n generalizing s ds with
  | zero =>
    cases hrun
    exact (List.append_nil _).symm
  | succ n ih =>
    by_cases hsize : s.index < tokens.size
    · rcases definition_ends hscans (s := { s with furthest := none }) hsize rfl with
        ⟨first, s₁, hfirst, -⟩ | ⟨e', e, s₁, hfirst, hkept, -⟩
      · rw [definitionsUpTo_succ d n (by omega), hfirst] at hrun
        have hdrawn := yields_definition hyields [] s.nextId tokens { s with furthest := none }
          first s₁ (List.append_nil _).symm hfirst
        obtain ⟨rest, s₂, hrest, hdone⟩ := exists_of_bind_run hrun
        cases hdone
        rw [ih hrest, hdrawn]
        simp
      · rw [definitionsUpTo_failed n hsize hfirst hkept] at hrun
        have hgrow := definitionsUpTo_grow hscans tokens n (resumed tokens s.index e s₁)
        rw [hrun] at hgrow
        have hmem : Report.badSyntax e ∈ s'.reports :=
          hgrow.subset (List.mem_append_right _ List.mem_cons_self)
        cases List.filterMap_eq_nil_iff.mp hclean _ hmem
    · rw [definitionsUpTo, bind_run_ok (remaining_run _ _), if_pos (by omega)] at hrun
      cases hrun
      exact (List.append_nil _).symm

/-- The nodes of a program that was read, listed in post-order, are numbered from zero up to
their number without a gap. -/
theorem parse_numbers_postOrder (tokens : List Token) (program : Program)
    (h : (parse tokens).program = some program) :
    PostOrder (program.definitions.map definitionNode) program.nodes ∧
      numbers program.nodes = List.range program.nodeCount := by
  refine ⟨program_postOrder program, ?_⟩
  obtain ⟨s, hrun, hclean, -, hcount⟩ := exists_run_of_parse h
  have hrange := range_definitionsUpTo (deeper_yields maxNesting) (deeper_scans maxNesting)
    tokens.toArray.size hrun hclean
  rw [hcount, hrange]
  rfl

/-- The text is `type t = A of int let rec f x = match x with A y -> f (- y) 1 end`. -/
def matchingTokens : List Token :=
  [(.kwType, "type"), (.genid, "t"), (.equals, "="), (.conid, "A"), (.kwOf, "of"),
   (.kwInt, "int"), (.kwLet, "let"), (.kwRec, "rec"), (.genid, "f"), (.genid, "x"),
   (.equals, "="), (.kwMatch, "match"), (.genid, "x"), (.kwWith, "with"), (.conid, "A"),
   (.genid, "y"), (.arrow, "->"), (.genid, "f"), (.lParen, "("), (.minus, "-"), (.genid, "y"),
   (.rParen, ")"), (.intLiteral, "1"), (.kwEnd, "end")].map fun w => Token.made w.1 w.2 1 1

theorem parse_numbers_matchingTokens :
    ∃ program, (parse matchingTokens).program = some program ∧ program.nodeCount = 15 ∧
      PostOrder (program.definitions.map definitionNode) program.nodes ∧
      numbers program.nodes = List.range program.nodeCount := by
  have hcount : (parse matchingTokens).program.map Program.nodeCount = some 15 := by
    decide +kernel
  obtain ⟨program, h, hnodes⟩ := Option.map_eq_some_iff.mp hcount
  exact ⟨program, h, hnodes, parse_numbers_postOrder matchingTokens program h⟩

end Llama.Proofs
