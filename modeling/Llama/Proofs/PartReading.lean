import Llama.Proofs.PatternReading
import Llama.Proofs.TypeReading

/-!
# Reading the parts of expressions

A part of an expression is written as an atom or in parentheses. Given that an expression is read
back between parentheses (`ExprReads`), each parser that may be asked for a part reads it back
where it stands, before anything that cannot extend it.
-/

namespace Llama.Proofs

open Llama.Parser Llama.Grammar

variable {texts : LiteralTexts}

/-- What follows an operand is neither an argument nor an index. -/
def endsOperand (k : Option TokenKind) : Prop :=
  k.any startsSimple = false ∧ k ≠ some .lBracket

/-- What follows an expression does not extend it either by an operator. -/
def endsExpr (k : Option TokenKind) : Prop :=
  endsOperand k ∧ k.bind BinaryOp.ofToken? = none

instance (k : Option TokenKind) : Decidable (endsOperand k) :=
  inferInstanceAs (Decidable (_ ∧ _))

instance (k : Option TokenKind) : Decidable (endsExpr k) :=
  inferInstanceAs (Decidable (_ ∧ _))

lemma endsOperand_binaryKind (op : BinaryOp) : endsOperand (some (binaryKind op)) := by
  cases op <;> exact ⟨rfl, by decide⟩

lemma ofToken?_binaryKind (op : BinaryOp) : BinaryOp.ofToken? (binaryKind op) = some op := by
  cases op <;> rfl

lemma startsSimple_not_unary {kind : TokenKind} (h : startsSimple kind = true) :
    kind ≠ .kwDelete ∧ UnaryOp.ofToken? kind = none := by
  revert h
  cases kind <;> decide

/-- A part of an expression starts with a word that starts a simple expression. -/
lemma wrap_exprWords_first (texts : LiteralTexts) (e : Expr) :
    ∃ w ws, wrap (exprIsAtom e) (exprWords texts e) = w :: ws ∧ startsSimple w.1 = true := by
  cases hatom : exprIsAtom e with
  | false => exact ⟨_, _, rfl, rfl⟩
  | true =>
    cases e with
    | const site value =>
      rw [exprWords]
      cases value with
      | bool b => cases b <;> exact ⟨_, _, rfl, rfl⟩
      | int n =>
        have hn : n ≠ leastInt := by simpa [exprIsAtom] using hatom
        exact ⟨_, _, by rw [constWords, if_neg hn]; rfl, rfl⟩
      | _ => exact ⟨_, _, rfl, rfl⟩
    | constr site name => exact ⟨_, _, by rw [exprWords]; rfl, rfl⟩
    | var site name => exact ⟨_, _, by rw [exprWords]; rfl, rfl⟩
    | _ => simp [exprIsAtom] at hatom

/-- What stands in parentheses does not start with the closing one. -/
lemma exprWords_first {e : Expr} (hatom : exprIsAtom e = false) (k : Option TokenKind) :
    firstKind (exprWords texts e) k ≠ some .rParen := by
  cases e with
  | binary site op left right =>
    obtain ⟨w, ws, hwords, hstarts⟩ := wrap_exprWords_first texts left
    rw [exprWords, hwords]
    rintro h
    have hkind : w.1 = .rParen := by simpa [firstKind] using h
    rw [hkind] at hstarts
    exact absurd hstarts (by decide)
  | unary site op operand =>
    rw [exprWords]
    cases op <;> simp [firstKind, unaryKind]
  | const site value =>
    cases value with
    | int n =>
      have hn : n = leastInt := by simpa [exprIsAtom] using hatom
      rw [exprWords, constWords, if_pos hn]
      simp [firstKind]
    | _ => simp [exprIsAtom] at hatom
  | letIn site group body =>
    obtain ⟨groupSite, isRec, defs⟩ := group
    rw [exprWords, groupWords]
    simp [firstKind]
  | constr site name => simp [exprIsAtom] at hatom
  | var site name => simp [exprIsAtom] at hatom
  | _ =>
    rw [exprWords]
    simp [firstKind]

section Parsers

variable {d : Deeper} {w : Word} {ws : List Word} {follow : Option TokenKind → Prop}
  {post : Expr → Prop}

/-- Climbing stops where no operator comes next. -/
lemma reads_climbUpTo_stop {rank n : Nat} {left : Expr} {chained : Option Nat}
    (hfollow : ∀ k, follow k → k.bind BinaryOp.ofToken? = none) (hleft : post left) :
    Reads (climbUpTo d rank n left chained) [] follow post := by
  cases n with
  | zero => exact reads_pure hleft
  | succ n =>
    rw [climbUpTo]
    refine reads_peekKind_follow_bind fun k hk => ?_
    rw [firstKind, hfollow k hk]
    exact reads_pure hleft

lemma reads_exprFrom_of_unary {rank : Nat}
    (hfollow : ∀ k, follow k → k.bind BinaryOp.ofToken? = none)
    (h : Reads (unary d) ws follow post) : Reads (exprFrom d rank) ws follow post := by
  unfold exprFrom
  refine reads_bind_last h fun left hleft => reads_read_bind fun n => ?_
  exact reads_climbUpTo_stop hfollow hleft

lemma reads_unary_of_primary (hdelete : w.1 ≠ .kwDelete) (hop : UnaryOp.ofToken? w.1 = none)
    (h : Reads (primary d) (w :: ws) follow post) : Reads (unary d) (w :: ws) follow post := by
  unfold unary
  refine reads_peekKind_bind ?_
  split
  · exact h
  · rename_i heq
    exact absurd (Option.some.inj heq) hdelete
  · rename_i kind _ heq
    rw [← Option.some.inj heq, hop]
    exact h

/-- A word that starts a simple expression is no prefix operator. -/
lemma reads_unary_of_startsSimple (hstarts : startsSimple w.1 = true)
    (h : Reads (primary d) (w :: ws) follow post) : Reads (unary d) (w :: ws) follow post :=
  reads_unary_of_primary (startsSimple_not_unary hstarts).1 (startsSimple_not_unary hstarts).2 h

end Parsers

lemma reads_simpleExpr_literal {d : Deeper} {c : Const} {text : String} (h : Decodes text c) :
    Reads (simpleExpr d) [(literalKind c, text)] (fun _ => True)
      (fun e => bareExpr e = .const default c) := by
  have hconst : Reads (do let read ← constant; return .const (← newSite read.2) read.1)
      [(literalKind c, text)] (fun _ => True) (fun e => bareExpr e = .const default c) := by
    refine reads_bind_last (reads_constant h) ?_
    rintro ⟨value, span⟩ rfl
    exact reads_newSite_bind fun _ => reads_pure (by rw [bareExpr])
  unfold simpleExpr
  refine reads_peekKind_bind ?_
  cases c with
  | bool value => cases value <;> exact hconst
  | _ => exact hconst

lemma reads_simpleExpr_unit {d : Deeper} :
    Reads (simpleExpr d) [terminal .lParen, terminal .rParen] (fun _ => True)
      (fun e => bareExpr e = .const default .unit) := by
  unfold simpleExpr
  refine reads_peekKind_bind ?_
  unfold parenthesized
  refine reads_expect_bind fun _ _ => reads_isAt_bind (reads_expect_bind fun _ _ => ?_)
  exact reads_newSite_bind fun _ => reads_pure (by rw [bareExpr])

lemma reads_simpleExpr_const {d : Deeper} {site : Site} {c : Const}
    (hatom : exprIsAtom (.const site c) = true) (hw : constWritable texts c) :
    Reads (simpleExpr d) (constWords texts c) (fun _ => True)
      (fun e => bareExpr e = .const default c) := by
  cases c with
  | unit => exact reads_simpleExpr_unit
  | bool value => exact reads_simpleExpr_literal (decodes_bool value _)
  | int n =>
    have hn : n ≠ leastInt := by simpa [exprIsAtom] using hatom
    rw [constWords, if_neg hn]
    exact reads_simpleExpr_literal (hw.resolve_left hn)
  | char value => exact reads_simpleExpr_literal hw
  | float value => exact reads_simpleExpr_literal hw
  | string value => exact reads_simpleExpr_literal hw

/-- An expression is read back, up to sites, between parentheses at every level that has room
for it. -/
def ExprReads (texts : LiteralTexts) (e : Expr) : Prop :=
  exprWritable texts e → ∀ n, exprLevels e ≤ n →
    Reads (exprFrom (deeper n) anyRank) (exprWords texts e) (fun k => k = some .rParen)
      (fun e' => bareExpr e' = bareExpr e)

section Parts

variable {e : Expr} {n : Nat}

lemma reads_parenthesized (h : ExprReads texts e) (hw : exprWritable texts e)
    (hatom : exprIsAtom e = false) (hn : exprLevels e + 1 ≤ n) :
    Reads (simpleExpr (deeper n))
      (terminal .lParen :: (exprWords texts e ++ [terminal .rParen])) (fun _ => True)
      (fun e' => bareExpr e' = bareExpr e) := by
  obtain ⟨m, rfl⟩ : ∃ m, n = m + 1 := ⟨n - 1, by omega⟩
  rw [simpleExpr, deeper_succ]
  refine reads_peekKind_bind ?_
  unfold parenthesized
  refine reads_expect_bind fun _ _ => reads_isAt_other_bind (fun k _ => ?_) ?_
  · rw [firstKind_append]
    exact exprWords_first hatom _
  · have hinner : Reads (wholeExpr (levelAbove (deeper m))) (exprWords texts e)
        (fun k => k = some .rParen) (fun e' => bareExpr e' = bareExpr e) := h hw m (by omega)
    refine reads_bind hinner (fun inner hbare => ?_) (fun _ _ => rfl)
    exact reads_expect_bind fun _ _ => reads_pure hbare

lemma reads_simpleExpr (h : exprIsAtom e = false → ExprReads texts e) (hw : exprWritable texts e)
    (hn : wrapLevels (exprIsAtom e) (exprLevels e) ≤ n) :
    Reads (simpleExpr (deeper n)) (wrap (exprIsAtom e) (exprWords texts e))
      (fun k => k ≠ some .lBracket) (fun e' => bareExpr e' = bareExpr e) := by
  cases hatom : exprIsAtom e with
  | false =>
    have hlevels := wrapLevels_le.mp hn hatom
    exact (reads_parenthesized (h hatom) hw hatom hlevels).mono (fun _ _ => trivial) fun _ h => h
  | true =>
    cases e with
    | const site value =>
      rw [exprWritable] at hw
      rw [exprWords, bareExpr]
      exact (reads_simpleExpr_const hatom hw).mono (fun _ _ => trivial) fun _ h => h
    | constr site name =>
      rw [exprWords]
      unfold simpleExpr
      refine reads_peekKind_bind (reads_conid_bind fun _ => ?_)
      exact reads_newSite_bind fun _ => reads_pure (by rw [bareExpr, bareExpr])
    | var site name =>
      rw [exprWords]
      unfold simpleExpr
      refine reads_peekKind_bind ?_
      unfold variableOrElement
      refine reads_genid_bind fun _ => reads_isAt_other_bind (fun k hk => hk) ?_
      exact reads_newSite_bind fun _ => reads_pure (by rw [bareExpr, bareExpr])
    | _ => simp [exprIsAtom] at hatom

lemma reads_primary (h : exprIsAtom e = false → ExprReads texts e) (hw : exprWritable texts e)
    (hn : wrapLevels (exprIsAtom e) (exprLevels e) ≤ n) :
    Reads (primary (deeper n)) (wrap (exprIsAtom e) (exprWords texts e)) endsOperand
      (fun e' => bareExpr e' = bareExpr e) := by
  have hsimple := (reads_simpleExpr h hw hn).mono
    (fun k (hk : endsOperand k) => hk.2) fun _ h => h
  unfold primary
  cases hatom : exprIsAtom e with
  | false =>
    rw [hatom] at hsimple
    exact reads_peekKind_bind hsimple
  | true =>
    rw [hatom] at hsimple
    cases e with
    | const site value =>
      rw [exprWords] at hsimple ⊢
      cases value with
      | bool b => cases b <;> exact reads_peekKind_bind hsimple
      | int k =>
        have hk : k ≠ leastInt := by simpa [exprIsAtom] using hatom
        rw [constWords, if_neg hk] at hsimple ⊢
        exact reads_peekKind_bind hsimple
      | _ => exact reads_peekKind_bind hsimple
    | constr site name =>
      rw [exprWords]
      refine reads_peekKind_bind ?_
      unfold construction
      refine reads_conid_bind fun _ => ?_
      refine reads_bind_last (reads_many_none fun k hk => hk.1) ?_
      rintro _ rfl
      exact reads_newSite_bind fun _ => reads_pure (by rw [bareExpr, bareExpr])
    | var site name =>
      rw [exprWords]
      refine reads_peekKind_bind (reads_peekKindAt_bind fun k hk => ?_)
      have hbracket : (firstKind [] k == some .lBracket) = false :=
        beq_eq_false_iff_ne.mpr hk.2
      rw [hbracket]
      simp only [Bool.false_eq_true, if_false]
      unfold variableOrCall
      refine reads_genid_bind fun _ => ?_
      refine reads_bind_last (reads_many_none fun k hk => hk.1) ?_
      rintro _ rfl
      exact reads_newSite_bind fun _ => reads_pure (by rw [bareExpr, bareExpr])
    | _ => simp [exprIsAtom] at hatom

lemma reads_unary (h : exprIsAtom e = false → ExprReads texts e) (hw : exprWritable texts e)
    (hn : wrapLevels (exprIsAtom e) (exprLevels e) ≤ n) :
    Reads (unary (deeper n)) (wrap (exprIsAtom e) (exprWords texts e)) endsOperand
      (fun e' => bareExpr e' = bareExpr e) := by
  have hprimary := reads_primary h hw hn
  obtain ⟨w, ws, hwords, hstarts⟩ := wrap_exprWords_first texts e
  rw [hwords] at hprimary ⊢
  exact reads_unary_of_startsSimple hstarts hprimary

lemma reads_deeper_operand (h : ExprReads texts e) (hw : exprWritable texts e)
    (hn : wrapLevels (exprIsAtom e) (exprLevels e) + 1 ≤ n) :
    Reads (deeper n).operand (wrap (exprIsAtom e) (exprWords texts e)) endsOperand
      (fun e' => bareExpr e' = bareExpr e) := by
  obtain ⟨m, rfl⟩ : ∃ m, n = m + 1 := ⟨n - 1, by omega⟩
  rw [deeper_succ]
  exact reads_unary (fun _ => h) hw (by omega)

lemma reads_deeper_simple (h : ExprReads texts e) (hw : exprWritable texts e)
    (hn : wrapLevels (exprIsAtom e) (exprLevels e) + 1 ≤ n) :
    Reads (deeper n).simple (wrap (exprIsAtom e) (exprWords texts e))
      (fun k => k ≠ some .lBracket) (fun e' => bareExpr e' = bareExpr e) := by
  obtain ⟨m, rfl⟩ : ∃ m, n = m + 1 := ⟨n - 1, by omega⟩
  rw [deeper_succ]
  exact reads_simpleExpr (fun _ => h) hw (by omega)

lemma reads_deeper_exprFrom {rank : Nat} (h : ExprReads texts e) (hw : exprWritable texts e)
    (hn : wrapLevels (exprIsAtom e) (exprLevels e) + 1 ≤ n) :
    Reads ((deeper n).exprFrom rank) (wrap (exprIsAtom e) (exprWords texts e)) endsExpr
      (fun e' => bareExpr e' = bareExpr e) := by
  obtain ⟨m, rfl⟩ : ∃ m, n = m + 1 := ⟨n - 1, by omega⟩
  rw [deeper_succ]
  refine reads_exprFrom_of_unary (fun k hk => hk.2) ?_
  exact (reads_unary (fun _ => h) hw (by omega)).mono (fun k hk => hk.1) fun _ h => h

end Parts

end Llama.Proofs
