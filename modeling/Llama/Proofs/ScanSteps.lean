import Llama.Proofs.TokenReading

/-!
# Scanning

Below the definitions of a program, the parsers of the grammar are put together from a few sorts
of steps: they look at what lies ahead, take tokens or go back to where an optional part began,
number nodes, and fail. None of these reports anything or touches the type table, and a parser
that succeeds does not end before where it began. The place of an error is that of the token where
the parser that failed stood, and every failure is kept if none is further into the input.
-/

namespace Llama.Proofs

open Llama.Parser Llama.Grammar

variable {α β : Type} {d : Deeper} {placed : SyntaxError → Prop} {e : SyntaxError}
  {p item : Parser α} {tokens : Array Token} {s : ParserState} {f : α → Parser β}

/-- The two errors are about the same place in the input. -/
structure SamePlace (e e' : SyntaxError) : Prop where
  found : e.found = e'.found
  index : e.index = e'.index
  line : e.line = e'.line
  column : e.column = e'.column

/-- The first error is the second one with something more to say. If nothing was expected before,
nothing is expected twice. -/
structure Specifies (e e' : SyntaxError) : Prop extends SamePlace e e' where
  distinct : e'.expected = [] → e.expected.Nodup

lemma specifies_refl (e : SyntaxError) : Specifies e e :=
  ⟨⟨rfl, rfl, rfl, rfl⟩, fun h => h ▸ List.nodup_nil⟩

lemma specifies_expecting (e : SyntaxError) (what : String) : Specifies (e.expecting what) e := by
  refine ⟨⟨rfl, rfl, rfl, rfl⟩, fun h => ?_⟩
  simp [SyntaxError.expecting, h]

lemma Specifies.noting {e' : SyntaxError} (h : Specifies e e') (note : String) :
    Specifies (e.noting note) e' :=
  ⟨⟨h.found, h.index, h.line, h.column⟩, h.distinct⟩

/-- The parser is put together from steps that only scan. It fails where the errors are that it
has made at the next token; of these, `placed` may be assumed. -/
inductive Scans (placed : SyntaxError → Prop) : ∀ {α : Type}, Parser α → Prop
  | pure {α : Type} (a : α) : Scans placed (pure a)
  | bind {α β : Type} {p : Parser α} {f : α → Parser β} :
      Scans placed p → (∀ a, Scans placed (f a)) → Scans placed (p >>= f)
  | read {α : Type} (f : Array Token → ParserState → α)
      (hdepth : ∀ tokens s depth, f tokens { s with depth } = f tokens s := by intros; rfl) :
      Scans placed (read f)
  | errorHere {α : Type} {f : SyntaxError → Parser α} :
      (∀ e, placed e → Scans placed (f e)) → Scans placed (errorHere >>= f)
  | failWith {α : Type} {e e' : SyntaxError} :
      placed e → Specifies e' e → Scans placed (failWith e' : Parser α)
  | label {α : Type} {p : Parser α} (name : String) :
      Scans placed p → Scans placed (label p name)
  | optional {α : Type} {p : Parser α} : Scans placed p → Scans placed (optional p)
  | advance : Scans placed advance
  | freshId : Scans placed freshId

lemma scans_ite {c : Prop} [Decidable c] {q : Parser α} (hp : Scans placed p)
    (hq : Scans placed q) : Scans placed (if c then p else q) := by
  by_cases hc : c
  · rw [if_pos hc]
    exact hp
  · rw [if_neg hc]
    exact hq

lemma scans_peekKind : Scans placed peekKind := .read _

lemma scans_isAt (kind : TokenKind) : Scans placed (isAt kind) :=
  .bind scans_peekKind fun _ => .pure _

lemma scans_startsWith (starts : TokenKind → Bool) : Scans placed (startsWith starts) :=
  .bind scans_peekKind fun _ => .pure _

lemma scans_unexpected (expected : String) : Scans placed (unexpected expected : Parser α) :=
  .errorHere fun e he => .failWith he (specifies_expecting e expected)

lemma scans_newSite (span : Span) : Scans placed (newSite span) := .bind .freshId fun _ => .pure _

lemma scans_newSiteFrom (start : Span) : Scans placed (newSiteFrom start) :=
  .bind (.read _) fun _ => scans_newSite _

lemma scans_tokenWhere (accepts : TokenKind → Bool) (expected : String) :
    Scans placed (tokenWhere accepts expected) := by
  refine .bind (.read _) fun next => ?_
  cases next with
  | none => exact scans_unexpected _
  | some token => exact scans_ite (.bind .advance fun _ => .pure _) (scans_unexpected _)

lemma scans_expect (kind : TokenKind) : Scans placed (expect kind) := scans_tokenWhere _ _

lemma scans_many (starts : TokenKind → Bool) (hitem : Scans placed item) :
    Scans placed (many starts item) := by
  refine .bind (.read _) fun count => ?_
  induction count with
  | zero => exact .pure _
  | succ n ih =>
    refine .bind (scans_startsWith starts) fun _ => scans_ite ?_ (.pure _)
    exact .bind hitem fun _ => .bind ih fun _ => .pure _

lemma scans_separated (separator : TokenKind) (hitem : Scans placed item) :
    Scans placed (separated separator item) := by
  refine .bind hitem fun _ => .bind (scans_many _ ?_) fun _ => .pure _
  exact .bind (scans_expect separator) fun _ => hitem

lemma scans_between (opening closing : TokenKind) (hitem : Scans placed item) :
    Scans placed (between opening closing item) :=
  .bind (scans_expect opening) fun _ => .bind hitem fun _ =>
    .bind (scans_expect closing) fun _ => .pure _

lemma scans_tooDeep : Scans placed (tooDeep : Parser α) :=
  .errorHere fun e he => .failWith he ((specifies_refl e).noting _)

lemma scans_genid : Scans placed genid :=
  .bind (.label _ (scans_expect _)) fun _ => .pure _

lemma scans_conid : Scans placed conid :=
  .bind (.label _ (scans_expect _)) fun _ => .pure _

lemma scans_typeName : Scans placed typeName := .bind (scans_tokenWhere _ _) fun _ => .pure _

lemma scans_constant : Scans placed constant := by
  refine .errorHere fun e he => .bind (scans_startsWith _) fun _ => ?_
  refine scans_ite ?_ (.failWith he (specifies_expecting e _))
  refine .bind .advance fun next => ?_
  cases next with
  | none => exact .failWith he (specifies_expecting e _)
  | some token =>
    dsimp only
    cases constantOf token.kind token.value with
    | ok value => exact .pure _
    | error note => exact .failWith he ((specifies_expecting e _).noting note)

/-- What stands one level deeper only scans. -/
structure DeeperScans (placed : SyntaxError → Prop) (d : Deeper) : Prop where
  exprFrom : ∀ rank, Scans placed (d.exprFrom rank)
  operand : Scans placed d.operand
  simple : Scans placed d.simple
  ty : Scans placed d.ty
  arrayTy : Scans placed d.arrayTy
  pattern : Scans placed d.pattern

lemma scans_typeAtom (h : DeeperScans placed d) : Scans placed (typeAtom d) := by
  refine .bind scans_peekKind fun kind => ?_
  split
  · exact .bind scans_genid fun _ => .pure _
  · exact scans_between _ _ h.ty
  · exact h.arrayTy
  · split
    · exact .bind .advance fun _ => .pure _
    · exact scans_unexpected _
  · exact scans_unexpected _

lemma scans_typeOperand (h : DeeperScans placed d) : Scans placed (typeOperand d) :=
  .bind (scans_typeAtom h) fun _ => .bind (scans_many _ (scans_expect _)) fun _ => .pure _

lemma scans_arrowType (h : DeeperScans placed d) : Scans placed (arrowType d) := by
  refine .bind (scans_typeOperand h) fun _ => .bind (scans_isAt _) fun _ => scans_ite ?_ (.pure _)
  exact .bind (scans_expect _) fun _ => .bind h.ty fun _ => .pure _

lemma scans_dimensions : Scans placed dimensions := by
  refine .bind (scans_isAt _) fun _ => scans_ite ?_ (.pure _)
  exact .bind (scans_between _ _ (scans_separated _ (scans_expect _))) fun _ => .pure _

lemma scans_arrayType (h : DeeperScans placed d) : Scans placed (arrayType d) :=
  .bind (scans_expect _) fun _ => .bind scans_dimensions fun _ => .bind (scans_expect _) fun _ =>
    .bind (scans_typeOperand h) fun _ => .pure _

lemma scans_annotated (h : DeeperScans placed d) : Scans placed (optionalType d) :=
  .optional (.bind (scans_expect _) fun _ => h.ty)

lemma scans_signedConstant (literal : TokenKind) (negative : Bool) :
    Scans placed (signedConstant literal negative) := by
  refine .bind .advance fun _ => .bind (.read _) fun _ => .errorHere fun e he => ?_
  refine .bind (scans_expect _) fun number => ?_
  split
  · exact .bind (scans_newSite _) fun _ => .pure _
  · exact .failWith he ((specifies_refl e).noting _)

lemma scans_simplePattern (h : DeeperScans placed d) : Scans placed (simplePattern d) := by
  refine .bind scans_peekKind fun kind => ?_
  have hconstant : Scans placed (do
      let read ← constant
      return Pattern.const (← newSite read.2) read.1) :=
    .bind scans_constant fun _ => .bind (scans_newSite _) fun _ => .pure _
  split
  · exact scans_between _ _ h.pattern
  · exact .bind scans_genid fun _ => .bind (scans_newSite _) fun _ => .pure _
  · exact .bind scans_conid fun _ => .bind (scans_newSite _) fun _ => .pure _
  · exact scans_signedConstant _ _
  · exact scans_signedConstant _ _
  · exact scans_signedConstant _ _
  · exact scans_signedConstant _ _
  · exact hconstant
  · exact hconstant
  · exact hconstant
  · exact hconstant
  · exact hconstant
  · exact scans_unexpected _

lemma scans_pattern (h : DeeperScans placed d) : Scans placed (pattern d) := by
  refine .bind (scans_isAt _) fun _ => scans_ite ?_ (scans_simplePattern h)
  refine .bind scans_conid fun _ => .bind (scans_many _ (scans_simplePattern h)) fun _ => ?_
  exact .bind (scans_newSiteFrom _) fun _ => .pure _

lemma scans_wholeExpr (h : DeeperScans placed d) : Scans placed (wholeExpr d) := h.exprFrom anyRank

lemma scans_indices (h : DeeperScans placed d) :
    Scans placed (between .lBracket .rBracket (exprList d)) :=
  scans_between _ _ (scans_separated _ (scans_wholeExpr h))

lemma scans_param (h : DeeperScans placed d) : Scans placed (param d) := by
  refine .bind (scans_isAt _) fun _ => scans_ite ?_ ?_
  · exact .bind scans_genid fun _ => .bind (scans_newSite _) fun _ => .pure _
  · refine .bind (.label _ (scans_expect _)) fun _ => .bind scans_genid fun _ => ?_
    refine .bind (scans_expect _) fun _ => .bind h.ty fun _ => .bind (scans_expect _) fun _ => ?_
    exact .bind (scans_newSite _) fun _ => .pure _

lemma scans_mutableDef (h : DeeperScans placed d) : Scans placed (mutableDef d) := by
  refine .bind (scans_expect _) fun _ => .bind scans_genid fun _ => ?_
  refine .bind (scans_isAt _) fun _ => scans_ite ?_ ?_
  · refine .bind (scans_indices h) fun _ => .bind (scans_annotated h) fun _ => ?_
    exact .bind (scans_newSiteFrom _) fun _ => .pure _
  · exact .bind (scans_annotated h) fun _ => .bind (scans_newSiteFrom _) fun _ => .pure _

lemma scans_functionDef (h : DeeperScans placed d) : Scans placed (functionDef d) := by
  refine .bind (.label _ scans_genid) fun _ => ?_
  refine .bind (scans_many _ (scans_param h)) fun params => .bind (scans_annotated h) fun _ => ?_
  refine .bind (scans_expect _) fun _ => .bind (scans_wholeExpr h) fun _ => ?_
  refine .bind (scans_newSite _) fun _ => ?_
  cases params <;> exact .pure _

/-- A let group after its first token. -/
def afterLet (d : Deeper) (start : Token) : Parser LetGroup := do
  let isRec ← optional (expect .kwRec)
  let defs ← separated .kwAnd (letDef d)
  return .mk (← newSiteFrom start.span) isRec.isSome defs

lemma scans_letDef (h : DeeperScans placed d) : Scans placed (letDef d) :=
  .bind (scans_isAt _) fun _ => scans_ite (scans_mutableDef h) (scans_functionDef h)

lemma scans_afterLet (h : DeeperScans placed d) (start : Token) :
    Scans placed (afterLet d start) :=
  .bind (.optional (scans_expect _)) fun _ => .bind (scans_separated _ (scans_letDef h)) fun _ =>
    .bind (scans_newSiteFrom _) fun _ => .pure _

lemma scans_letGroup (h : DeeperScans placed d) : Scans placed (letGroup d) :=
  .bind (scans_expect _) (scans_afterLet h)

lemma scans_simpleExpr (h : DeeperScans placed d) : Scans placed (simpleExpr d) := by
  refine .bind scans_peekKind fun kind => ?_
  split
  · refine .bind scans_genid fun _ => .bind (scans_isAt _) fun _ => scans_ite ?_ ?_
    · exact .bind (scans_indices h) fun _ => .bind (scans_newSiteFrom _) fun _ => .pure _
    · exact .bind (scans_newSite _) fun _ => .pure _
  · exact .bind scans_conid fun _ => .bind (scans_newSite _) fun _ => .pure _
  · refine .bind (scans_expect _) fun _ => .bind h.simple fun _ => ?_
    exact .bind (scans_newSite _) fun _ => .pure _
  · refine .bind (scans_expect _) fun _ => .bind (scans_isAt _) fun _ => scans_ite ?_ ?_
    · exact .bind (scans_expect _) fun _ => .bind (scans_newSite _) fun _ => .pure _
    · exact .bind (scans_wholeExpr h) fun _ => .bind (scans_expect _) fun _ => .pure _
  · refine scans_ite ?_ (scans_unexpected _)
    exact .bind scans_constant fun _ => .bind (scans_newSite _) fun _ => .pure _
  · exact scans_unexpected _

lemma scans_arguments (h : DeeperScans placed d) :
    Scans placed (many startsSimple (simpleExpr d)) :=
  scans_many _ (scans_simpleExpr h)

lemma scans_variableOrCall (h : DeeperScans placed d) : Scans placed (variableOrCall d) := by
  refine .bind scans_genid fun _ => .bind (scans_arguments h) fun args => ?_
  cases args with
  | nil => exact .bind (scans_newSite _) fun _ => .pure _
  | cons => exact .bind (scans_newSiteFrom _) fun _ => .pure _

lemma scans_construction (h : DeeperScans placed d) : Scans placed (construction d) := by
  refine .bind scans_conid fun _ => .bind (scans_arguments h) fun args => ?_
  cases args with
  | nil => exact .bind (scans_newSite _) fun _ => .pure _
  | cons => exact .bind (scans_newSiteFrom _) fun _ => .pure _

lemma scans_arrayDim : Scans placed arrayDim := by
  refine .bind (scans_expect _) fun _ => .bind ?_ fun _ => .bind scans_genid fun _ => ?_
  · refine .bind (scans_isAt _) fun _ => scans_ite ?_ (.pure _)
    refine .errorHere fun e he => .bind (scans_expect _) fun token => ?_
    split
    · exact .pure _
    · exact .failWith he ((specifies_refl e).noting _)
  · exact .bind (scans_newSite _) fun _ => .pure _

lemma scans_newRef (h : DeeperScans placed d) : Scans placed (newRef d) :=
  .bind (scans_expect _) fun _ => .bind h.ty fun _ => .bind (scans_newSiteFrom _) fun _ => .pure _

lemma scans_forLoop (h : DeeperScans placed d) : Scans placed (forLoop d) := by
  refine .bind (scans_expect _) fun _ => .bind scans_genid fun _ => ?_
  refine .bind (scans_expect _) fun _ => .bind (scans_wholeExpr h) fun _ => ?_
  refine .bind (scans_tokenWhere _ _) fun _ => .bind (scans_wholeExpr h) fun _ => ?_
  refine .bind (scans_expect _) fun _ => .bind (scans_wholeExpr h) fun _ => ?_
  exact .bind (scans_expect _) fun _ => .bind (scans_newSiteFrom _) fun _ => .pure _

lemma scans_whileLoop (h : DeeperScans placed d) : Scans placed (whileLoop d) := by
  refine .bind (scans_expect _) fun _ => .bind (scans_wholeExpr h) fun _ => ?_
  refine .bind (scans_expect _) fun _ => .bind (scans_wholeExpr h) fun _ => ?_
  exact .bind (scans_expect _) fun _ => .bind (scans_newSiteFrom _) fun _ => .pure _

lemma scans_conditional (h : DeeperScans placed d) : Scans placed (conditional d) := by
  refine .bind (scans_expect _) fun _ => .bind (scans_wholeExpr h) fun _ => ?_
  refine .bind (scans_expect _) fun _ => .bind (h.exprFrom _) fun _ => ?_
  refine .bind (scans_isAt _) fun _ => scans_ite ?_ ?_
  · refine .bind (scans_expect _) fun _ => .bind (h.exprFrom _) fun _ => ?_
    exact .bind (scans_newSiteFrom _) fun _ => .pure _
  · exact .bind (scans_newSiteFrom _) fun _ => .pure _

lemma scans_clause (h : DeeperScans placed d) : Scans placed (clause d) :=
  .bind h.pattern fun _ => .bind (scans_expect _) fun _ => .bind (scans_wholeExpr h) fun _ =>
    .bind (scans_newSite _) fun _ => .pure _

lemma scans_matchWith (h : DeeperScans placed d) : Scans placed (matchWith d) := by
  refine .bind (scans_expect _) fun _ => .bind (scans_wholeExpr h) fun _ => ?_
  refine .bind (scans_expect _) fun _ => .bind (scans_separated _ (scans_clause h)) fun _ => ?_
  exact .bind (scans_expect _) fun _ => .bind (scans_newSiteFrom _) fun _ => .pure _

lemma scans_letIn (h : DeeperScans placed d) : Scans placed (letIn d) :=
  .bind (scans_letGroup h) fun _ => .bind (scans_expect _) fun _ =>
    .bind (scans_wholeExpr h) fun _ => .bind (scans_newSite _) fun _ => .pure _

lemma scans_primary (h : DeeperScans placed d) : Scans placed (primary d) := by
  refine .bind scans_peekKind fun kind => ?_
  split
  · refine .bind (.read _) fun _ => ?_
    exact scans_ite (scans_simpleExpr h) (scans_variableOrCall h)
  · exact scans_construction h
  · exact scans_arrayDim
  · exact scans_newRef h
  · exact scans_between _ _ (scans_wholeExpr h)
  · exact scans_forLoop h
  · exact scans_whileLoop h
  · exact scans_conditional h
  · exact scans_matchWith h
  · exact scans_letIn h
  · exact scans_simpleExpr h

lemma scans_leastInteger? (sign : Span) : Scans placed (leastInteger? sign) := by
  refine .bind (.read _) fun next => ?_
  cases next with
  | none => exact .pure _
  | some token =>
    refine scans_ite ?_ (.pure _)
    split
    · exact .bind .advance fun _ => .bind (scans_newSite _) fun _ => .pure _
    · exact .pure _

lemma scans_prefixed (h : DeeperScans placed d) (op : UnaryOp) : Scans placed (prefixed d op) := by
  refine .bind (.read _) fun start => ?_
  refine scans_ite (.bind (scans_leastInteger? start) ?_) (.bind (.pure _) ?_)
  all_goals
    intro least
    cases least with
    | some e => exact .pure _
    | none => exact .bind h.operand fun _ => .bind (scans_newSite _) fun _ => .pure _

lemma scans_unary (h : DeeperScans placed d) : Scans placed (unary d) := by
  refine .bind scans_peekKind fun kind => ?_
  split
  · exact scans_primary h
  · refine .bind .advance fun _ => .bind (.read _) fun _ => .bind h.operand fun _ => ?_
    exact .bind (scans_newSite _) fun _ => .pure _
  · split
    · exact .bind .advance fun _ => scans_prefixed h _
    · exact scans_primary h

lemma scans_climbUpTo (h : DeeperScans placed d) (rank count : Nat) (left : Expr)
    (chained : Option Nat) : Scans placed (climbUpTo d rank count left chained) := by
  induction count generalizing left chained with
  | zero => exact .pure _
  | succ n ih =>
    refine .bind scans_peekKind fun kind => ?_
    split
    · exact .pure _
    · refine scans_ite (.pure _) (scans_ite ?_ ?_)
      · exact .errorHere fun e he => .failWith he ((specifies_refl e).noting _)
      · refine .bind .advance fun _ => .bind (h.exprFrom _) fun _ => ?_
        exact .bind (scans_newSite _) fun _ => ih _ _

lemma scans_exprFrom (h : DeeperScans placed d) (rank : Nat) : Scans placed (exprFrom d rank) :=
  .bind (scans_unary h) fun _ => .bind (.read _) fun _ => scans_climbUpTo h rank _ _ _

/-- Nothing is asked of the place of an error. -/
def anywhere (_ : SyntaxError) : Prop := True

/-- A parser that only scans does the same at every depth, and leaves the depth as it is. -/
lemma Scans.run_depth (hp : Scans anywhere p) (tokens : Array Token) (depth : Nat) :
    ∀ s, p tokens { s with depth } = ((p tokens s).1, { (p tokens s).2 with depth }) := by
  induction hp with
  | pure | failWith | freshId => exact fun s => rfl
  | read f hdepth => exact fun s => by simp only [Parser.read, hdepth]
  | @bind _ _ p f _ _ ihp ihf =>
    intro s
    simp only [Bind.bind, ihp s]
    rcases p tokens s with ⟨_ | a, s'⟩
    · rfl
    · exact ihf a s'
  | errorHere _ ih => exact fun s => ih _ trivial s
  | @label _ p name _ ih =>
    intro s
    cases hrun : p tokens s with
    | mk result s' =>
      have hrun' := ih s
      rw [hrun] at hrun'
      cases result with
      | ok a => rw [label_run_ok hrun, label_run_ok hrun']
      | error e =>
        rw [label_run_error hrun, label_run_error hrun']
        rfl
  | @optional _ p _ ih =>
    intro s
    cases hrun : p tokens s with
    | mk result s' =>
      have hrun' := ih s
      rw [hrun] at hrun'
      cases result with
      | ok a => rw [optional_run_ok hrun, optional_run_ok hrun']
      | error e => rw [optional_run_error hrun, optional_run_error hrun']
  | advance =>
    intro s
    unfold Parser.advance
    dsimp only
    cases tokens[s.index]? <;> rfl

/-- To count the level makes no difference to a parser that only scans. -/
lemma Scans.counted_eq (hp : Scans anywhere p) : counted p = p := by
  funext tokens s
  rw [counted, hp.run_depth]
  exact (hp.run_depth tokens s.depth s).symm

/-- The parsers of the level above some parsers, which count no levels. -/
def levelAbove (d : Deeper) : Deeper where
  exprFrom := exprFrom d
  operand := unary d
  simple := simpleExpr d
  ty := arrowType d
  arrayTy := arrayType d
  pattern := pattern d

lemma levelAbove_scans (h : DeeperScans placed d) : DeeperScans placed (levelAbove d) :=
  ⟨scans_exprFrom h, scans_unary h, scans_simpleExpr h, scans_arrowType h, scans_arrayType h,
    scans_pattern h⟩

lemma deeper_succ_of_scans {levels : Nat} (h : DeeperScans anywhere (deeper levels)) :
    deeper (levels + 1) = levelAbove (deeper levels) := by
  simp only [deeper, levelAbove, (scans_exprFrom h _).counted_eq, (scans_unary h).counted_eq,
    (scans_simpleExpr h).counted_eq, (scans_arrowType h).counted_eq,
    (scans_arrayType h).counted_eq, (scans_pattern h).counted_eq]

/-- However many levels are left, what stands below only scans. -/
lemma deeper_scans (levels : Nat) : DeeperScans placed (deeper levels) := by
  induction levels generalizing placed with
  | zero =>
    exact ⟨fun _ => scans_tooDeep, scans_tooDeep, scans_tooDeep, scans_tooDeep, scans_tooDeep,
      scans_tooDeep⟩
  | succ levels ih =>
    rw [deeper_succ_of_scans ih]
    exact levelAbove_scans ih

/-- Counting makes no difference to a level: all that it does is undone when the level is left. -/
lemma deeper_succ (levels : Nat) : deeper (levels + 1) = levelAbove (deeper levels) :=
  deeper_succ_of_scans (deeper_scans levels)

lemma outermost_scans : DeeperScans placed outermost := deeper_scans maxNesting

lemma scans_constructorDef (h : DeeperScans placed d) : Scans placed (constructorDef d) := by
  refine .bind scans_conid fun _ => .bind (scans_isAt _) fun _ => scans_ite ?_ ?_
  · refine .bind (scans_expect _) fun _ => .bind h.ty fun _ => .bind (scans_many _ h.ty) fun _ => ?_
    exact .bind (scans_newSiteFrom _) fun _ => .pure _
  · exact .bind (scans_newSiteFrom _) fun _ => .pure _

lemma scans_typeDef (h : DeeperScans placed d) : Scans placed (typeDef d) := by
  refine .bind scans_typeName fun _ => .bind (scans_expect _) fun _ => ?_
  refine .bind (scans_separated _ (scans_constructorDef h)) fun _ => ?_
  exact .bind (scans_newSiteFrom _) fun _ => .pure _

/-- A type group after its first token, before it is entered. -/
def afterType (d : Deeper) (start : Token) : Parser TypeGroup := do
  let defs ← separated .kwAnd (typeDef d)
  return ⟨← newSiteFrom start.span, defs⟩

lemma scans_afterType (h : DeeperScans placed d) (start : Token) :
    Scans placed (afterType d start) :=
  .bind (scans_separated _ (scans_typeDef h)) fun _ => .bind (scans_newSiteFrom _) fun _ => .pure _

/-! ### What scanning leaves alone -/

/-- What single steps keep is kept by a parser that only scans. An error that it records is one
that it made, or one with a label. -/
lemma Scans.preserves (hp : Scans placed p) {R : ParserState → ParserState → Prop}
    (hrefl : ∀ s, R s s) (htrans : ∀ s₁ s₂ s₃, R s₁ s₂ → R s₂ s₃ → R s₁ s₃)
    (hindex : ∀ s index, R s { s with index })
    (hnextId : ∀ s, R s { s with nextId := s.nextId + 1 })
    (hplaced : ∀ index, placed (errorAt tokens index))
    (hrecord : ∀ s e, (∃ e', placed e' ∧ Specifies e e') ∨ (∃ name, e.expected = [name]) →
      R s { s with furthest := some (SyntaxError.furthest s.furthest e) }) :
    ∀ s, R s (p tokens s).2 := by
  induction hp with
  | pure a => exact hrefl
  | read f => exact hrefl
  | bind _ _ ihp ihf => exact fun s => bind_run_preserves htrans (ihp s) ihf
  | errorHere _ ih => exact fun s => ih (errorAt tokens s.index) (hplaced s.index) s
  | failWith he hspecifies => exact fun s => hrecord s _ (.inl ⟨_, he, hspecifies⟩)
  | @label _ p name _ ih =>
    intro s
    have hfirst := ih s
    cases hrun : p tokens s with
    | mk result s' =>
      rw [hrun] at hfirst
      cases result with
      | ok a =>
        rw [label_run_ok hrun]
        exact hfirst
      | error e =>
        rw [label_run_error hrun]
        exact htrans _ _ _ hfirst (hrecord s' _ (.inr ⟨name, rfl⟩))
  | @optional _ p _ ih =>
    intro s
    have hfirst := ih s
    cases hrun : p tokens s with
    | mk result s' =>
      rw [hrun] at hfirst
      cases result with
      | ok a =>
        rw [optional_run_ok hrun]
        exact hfirst
      | error e =>
        rw [optional_run_error hrun]
        exact htrans _ _ _ hfirst (hindex s' _)
  | advance =>
    intro s
    unfold Parser.advance
    split
    · exact hindex s _
    · exact hrefl s
  | freshId => exact hnextId

/-- The states agree in the type table, the reports and the depth. -/
def Kept (s s' : ParserState) : Prop :=
  s'.types = s.types ∧ s'.reports = s.reports ∧ s'.depth = s.depth

/-- A parser that only scans keeps the type table, the reports and the depth. -/
theorem Scans.keeps (hp : Scans anywhere p) (tokens : Array Token) (s : ParserState) :
    Kept s (p tokens s).2 :=
  hp.preserves (R := Kept) (fun _ => ⟨rfl, rfl, rfl⟩)
    (fun _ _ _ h h' => ⟨h'.1.trans h.1, h'.2.1.trans h.2.1, h'.2.2.trans h.2.2⟩)
    (fun _ _ => ⟨rfl, rfl, rfl⟩) (fun _ => ⟨rfl, rfl, rfl⟩) (fun _ => trivial)
    (fun _ _ _ => ⟨rfl, rfl, rfl⟩) s

lemma Scans.nextId_le (hp : Scans anywhere p) (tokens : Array Token) (s : ParserState) :
    s.nextId ≤ (p tokens s).2.nextId :=
  hp.preserves (R := fun s s' => s.nextId ≤ s'.nextId) (fun _ => Nat.le_refl _)
    (fun _ _ _ => Nat.le_trans) (fun _ _ => Nat.le_refl _) (fun _ => Nat.le_succ _)
    (fun _ => trivial) (fun _ _ _ => Nat.le_refl _) s

/-- A parser that only scans and succeeds has not gone back, and has not left the input. -/
theorem Scans.index_bounds (hp : Scans anywhere p) :
    ∀ {s s' : ParserState} {a : α}, p tokens s = (.ok a, s') →
      s.index ≤ s'.index ∧ s'.index ≤ max s.index tokens.size := by
  induction hp with
  | pure | read | freshId =>
    intro s s' _ h
    cases h
    exact ⟨Nat.le_refl _, Nat.le_max_left _ _⟩
  | @bind _ _ p f _ _ ihp ihf =>
    intro s s' b h
    obtain ⟨a, s₁, hfirst, hrest⟩ := exists_of_bind_run h
    have hbounds := ihp hfirst
    have hbounds' := ihf a hrest
    omega
  | errorHere _ ih => exact fun h => ih _ trivial h
  | failWith _ _ =>
    intro s s' _ h
    cases h
  | label name _ ih => exact fun h => ih (of_label_run h)
  | optional _ ih =>
    intro s s' o h
    rcases cases_of_optional_run h with ⟨a, -, hrun⟩ | ⟨e, s₁, -, rfl, -⟩
    · exact ih hrun
    · exact ⟨Nat.le_refl _, Nat.le_max_left _ _⟩
  | advance =>
    intro s s' _ h
    unfold Parser.advance at h
    split at h
    next token hget =>
      have hlt : s.index < tokens.size := (Array.getElem?_eq_some_iff.mp hget).1
      cases h
      exact ⟨Nat.le_succ _, Nat.le_trans hlt (Nat.le_max_right _ _)⟩
    next =>
      cases h
      exact ⟨Nat.le_refl _, Nat.le_max_left _ _⟩

lemma Scans.index_le (hp : Scans anywhere p) {s' : ParserState} {a : α}
    (h : p tokens s = (.ok a, s')) : s.index ≤ s'.index :=
  (hp.index_bounds h).1

lemma Scans.le_size (hp : Scans anywhere p) {s' : ParserState} {a : α} (hs : s.index ≤ tokens.size)
    (h : p tokens s = (.ok a, s')) : s'.index ≤ tokens.size :=
  Nat.le_trans (hp.index_bounds h).2 (Nat.max_le.mpr ⟨hs, Nat.le_refl _⟩)

/-- The parser takes at least one token when it succeeds. -/
def Advances (p : Parser α) : Prop :=
  ∀ tokens s s' a, p tokens s = (.ok a, s') → s.index < s'.index

/-- The parser takes at least one token when there is one and it succeeds. -/
def AdvancesHere (p : Parser α) : Prop :=
  ∀ tokens s s' a, s.index < tokens.size → p tokens s = (.ok a, s') → s.index < s'.index

/-- What stands one level deeper as a type takes at least one token. -/
structure DeeperAdvances (d : Deeper) : Prop where
  ty : Advances d.ty
  arrayTy : Advances d.arrayTy

lemma Advances.here (hp : Advances p) : AdvancesHere p :=
  fun tokens s s' a _ hrun => hp tokens s s' a hrun

lemma advances_bind (hp : Advances p) (hf : ∀ a, Scans anywhere (f a)) : Advances (p >>= f) := by
  intro tokens s s' b h
  obtain ⟨a, s₁, hrun, hrest⟩ := exists_of_bind_run h
  exact Nat.lt_of_lt_of_le (hp _ _ _ _ hrun) ((hf a).index_le hrest)

lemma advancesHere_bind (hp : AdvancesHere p) (hf : ∀ a, Scans anywhere (f a)) :
    AdvancesHere (p >>= f) := by
  intro tokens s s' b hsize h
  obtain ⟨a, s₁, hrun, hrest⟩ := exists_of_bind_run h
  exact Nat.lt_of_lt_of_le (hp _ _ _ _ hsize hrun) ((hf a).index_le hrest)

lemma advances_bind_last (hp : Scans anywhere p) (hf : ∀ a, Advances (f a)) :
    Advances (p >>= f) := by
  intro tokens s s' b h
  obtain ⟨a, s₁, hrun, hrest⟩ := exists_of_bind_run h
  exact Nat.lt_of_le_of_lt (hp.index_le hrun) (hf a _ _ _ _ hrest)

lemma advances_ite {c : Prop} [Decidable c] {q : Parser α} (hp : Advances p) (hq : Advances q) :
    Advances (if c then p else q) := by
  by_cases hc : c
  · rw [if_pos hc]
    exact hp
  · rw [if_neg hc]
    exact hq

lemma advances_failWith (e : SyntaxError) : Advances (failWith e : Parser α) := by
  intro tokens s s' a h
  cases h

lemma advances_unexpected (expected : String) : Advances (unexpected expected : Parser α) :=
  advances_bind_last (.read _) fun _ => advances_failWith _

lemma advances_tooDeep : Advances (tooDeep : Parser α) :=
  advances_bind_last (.read _) fun _ => advances_failWith _

lemma advancesHere_advance : AdvancesHere advance := by
  intro tokens s s' a hsize h
  unfold Parser.advance at h
  rw [Array.getElem?_eq_getElem hsize] at h
  cases h
  exact Nat.lt_succ_self _

lemma advances_peekKind_bind {f : Option TokenKind → Parser α}
    (hsome : ∀ kind, AdvancesHere (f (some kind))) (hnone : Advances (f none)) :
    Advances (peekKind >>= f) := by
  intro tokens s s' a h
  rw [bind_run_ok (peekKind_run_index _ _)] at h
  by_cases hsize : s.index < tokens.size
  · rw [Array.getElem?_eq_getElem hsize, Option.map_some] at h
    exact hsome _ _ _ _ _ hsize h
  · rw [Array.getElem?_eq_none (by omega), Option.map_none] at h
    exact hnone _ _ _ _ h

lemma advances_tokenWhere (accepts : TokenKind → Bool) (expected : String) :
    Advances (tokenWhere accepts expected) := by
  intro tokens s s' a h
  have hpeek : peek tokens s = (.ok tokens[s.index]?, s) := rfl
  rw [tokenWhere, bind_run_ok hpeek] at h
  by_cases hsize : s.index < tokens.size
  · rw [Array.getElem?_eq_getElem hsize] at h
    dsimp only at h
    by_cases haccepts : accepts tokens[s.index].kind = true
    · rw [if_pos haccepts] at h
      exact advancesHere_bind advancesHere_advance (fun _ => .pure _) _ _ _ _ hsize h
    · rw [if_neg haccepts] at h
      exact advances_unexpected _ _ _ _ _ h
  · rw [Array.getElem?_eq_none (by omega)] at h
    exact advances_unexpected _ _ _ _ _ h

lemma advances_expect (kind : TokenKind) : Advances (expect kind) := advances_tokenWhere _ _

lemma advances_label (name : String) (hp : Advances p) : Advances (label p name) := by
  intro tokens s s' a h
  exact hp _ _ _ _ (of_label_run h)

lemma advances_between (opening closing : TokenKind) (hitem : Scans anywhere item) :
    Advances (between opening closing item) :=
  advances_bind (advances_expect opening) fun _ =>
    .bind hitem fun _ => .bind (scans_expect closing) fun _ => .pure _

lemma advances_genid : Advances genid :=
  advances_bind (advances_label _ (advances_expect _)) fun _ => .pure _

lemma advances_conid : Advances conid :=
  advances_bind (advances_label _ (advances_expect _)) fun _ => .pure _

lemma advances_constant : Advances constant := by
  refine advances_bind_last (.read _) fun e => ?_
  intro tokens s s' a h
  have hstarts : startsWith startsConstant tokens s =
      (.ok ((tokens[s.index]?.map Token.kind).any startsConstant), s) := rfl
  rw [bind_run_ok hstarts] at h
  by_cases hsize : s.index < tokens.size
  · split at h
    · obtain ⟨next, s₁, hadvance, hrest⟩ := exists_of_bind_run h
      have hmore := advancesHere_advance _ _ _ _ hsize hadvance
      cases next with
      | none => cases hrest
      | some token =>
        dsimp only at hrest
        cases hvalue : constantOf token.kind token.value with
        | ok value =>
          rw [hvalue] at hrest
          cases hrest
          exact hmore
        | error note =>
          rw [hvalue] at hrest
          cases hrest
    · cases h
  · rw [Array.getElem?_eq_none (by omega)] at h
    cases h

lemma advances_typeAtom (hs : DeeperScans anywhere d) (h : DeeperAdvances d) :
    Advances (typeAtom d) := by
  refine advances_peekKind_bind (fun kind => ?_) (advances_unexpected _)
  split
  · exact (advances_bind advances_genid fun _ => .pure _).here
  · exact (advances_between _ _ hs.ty).here
  · exact h.arrayTy.here
  · split
    · exact advancesHere_bind advancesHere_advance fun _ => .pure _
    · exact (advances_unexpected _).here
  · exact (advances_unexpected _).here

lemma advances_typeOperand (hs : DeeperScans anywhere d) (h : DeeperAdvances d) :
    Advances (typeOperand d) :=
  advances_bind (advances_typeAtom hs h) fun _ =>
    .bind (scans_many _ (scans_expect _)) fun _ => .pure _

lemma advances_arrowType (hs : DeeperScans anywhere d) (h : DeeperAdvances d) :
    Advances (arrowType d) := by
  refine advances_bind (advances_typeOperand hs h) fun _ => ?_
  refine .bind (scans_isAt _) fun _ => scans_ite ?_ (.pure _)
  exact .bind (scans_expect _) fun _ => .bind hs.ty fun _ => .pure _

lemma advances_arrayType (hs : DeeperScans anywhere d) : Advances (arrayType d) := by
  refine advances_bind (advances_expect _) fun _ => .bind scans_dimensions fun _ => ?_
  exact .bind (scans_expect _) fun _ => .bind (scans_typeOperand hs) fun _ => .pure _

lemma deeper_advances (levels : Nat) : DeeperAdvances (deeper levels) := by
  induction levels with
  | zero => exact ⟨advances_tooDeep, advances_tooDeep⟩
  | succ levels ih =>
    rw [deeper_succ]
    exact ⟨advances_arrowType (deeper_scans levels) ih, advances_arrayType (deeper_scans levels)⟩

lemma advances_signedConstant (literal : TokenKind) (negative : Bool) :
    AdvancesHere (signedConstant literal negative) := by
  refine advancesHere_bind advancesHere_advance fun _ => .bind (.read _) fun _ => ?_
  refine .errorHere fun e he => .bind (scans_expect _) fun number => ?_
  split
  · exact .bind (scans_newSite _) fun _ => .pure _
  · exact .failWith he ((specifies_refl e).noting _)

lemma advances_simplePattern (hs : DeeperScans anywhere d) : Advances (simplePattern d) := by
  refine advances_peekKind_bind (fun kind => ?_) (advances_unexpected _)
  have hconstant : Advances (do
      let read ← constant
      return Pattern.const (← newSite read.2) read.1) :=
    advances_bind advances_constant fun _ => .bind (scans_newSite _) fun _ => .pure _
  split
  · exact (advances_between _ _ hs.pattern).here
  · exact (advances_bind advances_genid fun _ => .bind (scans_newSite _) fun _ => .pure _).here
  · exact (advances_bind advances_conid fun _ => .bind (scans_newSite _) fun _ => .pure _).here
  · exact advances_signedConstant _ _
  · exact advances_signedConstant _ _
  · exact advances_signedConstant _ _
  · exact advances_signedConstant _ _
  · exact hconstant.here
  · exact hconstant.here
  · exact hconstant.here
  · exact hconstant.here
  · exact hconstant.here
  · exact (advances_unexpected _).here

lemma advances_param (hs : DeeperScans anywhere d) : Advances (param d) := by
  refine advances_bind_last (scans_isAt _) fun _ => advances_ite ?_ ?_
  · exact advances_bind advances_genid fun _ => .bind (scans_newSite _) fun _ => .pure _
  · refine advances_bind (advances_label _ (advances_expect _)) fun _ => ?_
    refine .bind scans_genid fun _ => ?_
    refine .bind (scans_expect _) fun _ => .bind hs.ty fun _ => .bind (scans_expect _) fun _ => ?_
    exact .bind (scans_newSite _) fun _ => .pure _

lemma advances_simpleExpr (hs : DeeperScans anywhere d) : Advances (simpleExpr d) := by
  refine advances_peekKind_bind (fun kind => ?_) (advances_unexpected _)
  split
  · refine (advances_bind advances_genid fun _ => ?_).here
    refine .bind (scans_isAt _) fun _ => scans_ite ?_ ?_
    · exact .bind (scans_indices hs) fun _ => .bind (scans_newSiteFrom _) fun _ => .pure _
    · exact .bind (scans_newSite _) fun _ => .pure _
  · exact (advances_bind advances_conid fun _ => .bind (scans_newSite _) fun _ => .pure _).here
  · refine (advances_bind (advances_expect _) fun _ => .bind hs.simple fun _ => ?_).here
    exact .bind (scans_newSite _) fun _ => .pure _
  · refine (advances_bind (advances_expect _) fun _ => ?_).here
    refine .bind (scans_isAt _) fun _ => scans_ite ?_ ?_
    · exact .bind (scans_expect _) fun _ => .bind (scans_newSite _) fun _ => .pure _
    · exact .bind (scans_wholeExpr hs) fun _ => .bind (scans_expect _) fun _ => .pure _
  · refine (advances_ite ?_ (advances_unexpected _)).here
    exact advances_bind advances_constant fun _ => .bind (scans_newSite _) fun _ => .pure _
  · exact (advances_unexpected _).here

/-! ### Where scanning fails -/

/-- The error is at a token from a position on, or at the end of the input. -/
structure PlacedFrom (tokens : Array Token) (start : Nat) (e : SyntaxError) : Prop where
  start_le : start ≤ e.index
  le_size : e.index ≤ tokens.size
  place : SamePlace e (errorAt tokens e.index)

/-- Reading that has begun at a position stands between it and the end of the input, and so does
the error that is kept. -/
structure Within (tokens : Array Token) (start : Nat) (s : ParserState) : Prop where
  start_le : start ≤ s.index
  le_size : s.index ≤ tokens.size
  furthest : ∀ e ∈ s.furthest, PlacedFrom tokens start e

variable {tokens : Array Token} {start : Nat}

lemma SamePlace.trans {e₁ e₂ e₃ : SyntaxError} (h : SamePlace e₁ e₂) (h' : SamePlace e₂ e₃) :
    SamePlace e₁ e₃ :=
  ⟨h.found.trans h'.found, h.index.trans h'.index, h.line.trans h'.line,
    h.column.trans h'.column⟩

lemma PlacedFrom.congr {e' : SyntaxError} (h : PlacedFrom tokens start e)
    (hplace : SamePlace e' e) : PlacedFrom tokens start e' := by
  refine ⟨hplace.index ▸ h.start_le, hplace.index ▸ h.le_size, ?_⟩
  rw [hplace.index]
  exact hplace.trans h.place

lemma index_errorAt (tokens : Array Token) (index : Nat) :
    (errorAt tokens index).index = index := by
  unfold errorAt
  split
  · rfl
  · split <;> rfl

lemma Within.errorAt (h : Within tokens start s) :
    PlacedFrom tokens start (errorAt tokens s.index) := by
  refine ⟨?_, ?_, ?_⟩
  · rw [index_errorAt]
    exact h.start_le
  · rw [index_errorAt]
    exact h.le_size
  · rw [index_errorAt]
    exact ⟨rfl, rfl, rfl, rfl⟩

/-- Of two errors at their places the furthest is at its place. -/
lemma PlacedFrom.furthest {kept : Option SyntaxError} (h : PlacedFrom tokens start e)
    (hkept : ∀ k ∈ kept, PlacedFrom tokens start k) :
    PlacedFrom tokens start (SyntaxError.furthest kept e) := by
  cases kept with
  | none => exact h
  | some k =>
    have hk := hkept k rfl
    unfold SyntaxError.furthest
    dsimp only
    split
    · exact hk
    · split
      · exact hk.congr ⟨rfl, rfl, rfl, rfl⟩
      · exact h

lemma Within.record (h : Within tokens start s) (he : PlacedFrom tokens start e) :
    Within tokens start { s with furthest := some (SyntaxError.furthest s.furthest e) } := by
  refine ⟨h.start_le, h.le_size, fun e' he' => ?_⟩
  cases he'
  exact he.furthest h.furthest

/-- What comes of scanning from a position on: it ends in bounds, and if it fails then at a place
in bounds, and an error is kept. -/
structure EndsWithin (tokens : Array Token) (start : Nat)
    (run : Except SyntaxError α × ParserState) : Prop where
  within : Within tokens start run.2
  error : ∀ e, run.1 = .error e → PlacedFrom tokens start e ∧ run.2.furthest.isSome

lemma EndsWithin.done (a : α) (h : Within tokens start s) : EndsWithin tokens start (.ok a, s) := by
  refine ⟨h, fun e he => ?_⟩
  cases he

lemma EndsWithin.bind (hp : EndsWithin tokens start (p tokens s))
    (hf : ∀ a s', Within tokens start s' → EndsWithin tokens start (f a tokens s')) :
    EndsWithin tokens start ((p >>= f) tokens s) := by
  cases hrun : p tokens s with
  | mk result s' =>
    rw [hrun] at hp
    cases result with
    | ok a =>
      rw [bind_run_ok hrun]
      exact hf a s' hp.within
    | error e =>
      rw [bind_run_error hrun]
      refine ⟨hp.within, fun e' he' => ?_⟩
      cases he'
      exact hp.error e rfl

lemma EndsWithin.failWith (h : Within tokens start s) (he : PlacedFrom tokens start e) :
    EndsWithin tokens start ((failWith e : Parser α) tokens s) := by
  refine ⟨h.record he, fun e' he' => ?_⟩
  cases he'
  exact ⟨he, rfl⟩

theorem Scans.endsWithin (hp : Scans (PlacedFrom tokens start) p) :
    ∀ {s : ParserState}, Within tokens start s → EndsWithin tokens start (p tokens s) := by
  induction hp with
  | pure a => exact fun h => .done a h
  | read f => exact fun h => .done _ h
  | bind _ _ ihp ihf => exact fun h => (ihp h).bind fun a _ => ihf a
  | errorHere _ ih => exact fun h => ih _ h.errorAt h
  | failWith he hplace => exact fun h => .failWith h (he.congr hplace.toSamePlace)
  | @label _ p name _ ih =>
    intro s h
    have hfirst := ih h
    cases hrun : p tokens s with
    | mk result s' =>
      rw [hrun] at hfirst
      cases result with
      | ok a =>
        rw [label_run_ok hrun]
        exact hfirst
      | error e =>
        rw [label_run_error hrun]
        exact .failWith hfirst.within ((hfirst.error e rfl).1.congr ⟨rfl, rfl, rfl, rfl⟩)
  | @optional _ p _ ih =>
    intro s h
    have hfirst := ih h
    cases hrun : p tokens s with
    | mk result s' =>
      rw [hrun] at hfirst
      cases result with
      | ok a =>
        rw [optional_run_ok hrun]
        exact .done _ hfirst.within
      | error e =>
        rw [optional_run_error hrun]
        exact .done _ ⟨h.start_le, h.le_size, hfirst.within.furthest⟩
  | advance =>
    intro s h
    unfold Parser.advance
    split
    next token hget =>
      have hlt : s.index < tokens.size := (Array.getElem?_eq_some_iff.mp hget).1
      exact .done _ ⟨Nat.le_succ_of_le h.start_le, hlt, h.furthest⟩
    next => exact .done _ h
  | freshId => exact fun h => .done _ ⟨h.start_le, h.le_size, h.furthest⟩

end Llama.Proofs
