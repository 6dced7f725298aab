import Llama.Proofs.DefinitionRounds

/-!
# How deep reading goes

The parsers of a level call those of the level below only after they have taken a token, or take
one as soon as they are called. So a parser goes down no more levels than there are tokens left:
with that many levels it does not matter what stands at the bottom of them.
-/

namespace Llama.Proofs

open Llama.Parser Llama.Grammar

variable {α β : Type} {d d' : Deeper} {tokens : Array Token} {k r : Nat}

/-- A number of levels above any parsers at the bottom. -/
def levelsAbove (bottom : Deeper) : Nat → Deeper
  | 0 => bottom
  | levels + 1 => levelAbove (levelsAbove bottom levels)

lemma levelsAbove_none (levels : Nat) : levelsAbove Deeper.none levels = deeper levels := by
  induction levels with
  | zero => rfl
  | succ levels ih =>
    rw [levelsAbove, ih, deeper_succ]

lemma levelsAbove_add (bottom : Deeper) (more levels : Nat) :
    levelsAbove (levelsAbove bottom more) levels = levelsAbove bottom (more + levels) := by
  induction levels with
  | zero => rfl
  | succ levels ih => rw [levelsAbove, ih, ← Nat.add_assoc, levelsAbove]

/-! ### Agreement near the end of the input -/

/-- The parsers agree at depth `k` where less than `r` tokens are left. -/
def Same (tokens : Array Token) (k r : Nat) (p q : Parser α) : Prop :=
  ∀ s, s.depth = k → s.index ≤ tokens.size → tokens.size - s.index < r → p tokens s = q tokens s

/-- The parsers agree at depth `k` where less than `r` tokens are left, but at least one. -/
def SameHere (tokens : Array Token) (k r : Nat) (p q : Parser α) : Prop :=
  ∀ s, s.depth = k → s.index < tokens.size → tokens.size - s.index < r → p tokens s = q tokens s

section Combinators

variable {p q : Parser α} {f g : α → Parser β}

lemma Same.refl (p : Parser α) : Same tokens k r p p := fun _ _ _ _ => rfl

lemma Same.here (h : Same tokens k r p q) : SameHere tokens k r p q :=
  fun s hk hs hr => h s hk (Nat.le_of_lt hs) hr

lemma Same.mono {r' : Nat} (h : Same tokens k r p q) (hr : r' ≤ r) : Same tokens k r' p q :=
  fun s hk hs hlt => h s hk hs (Nat.lt_of_lt_of_le hlt hr)

lemma same_bind (hp : Same tokens k r p q) (hq : Scans anywhere q)
    (hf : ∀ a, Same tokens k r (f a) (g a)) : Same tokens k r (p >>= f) (q >>= g) := by
  intro s hk hs hr
  have hsame := hp s hk hs hr
  have hkept := (hq.keeps tokens s).2.2
  cases hrun : q tokens s with
  | mk result s' =>
    rw [hrun] at hkept
    cases result with
    | ok a =>
      have hle := hq.index_le hrun
      rw [bind_run_ok (hsame.trans hrun), bind_run_ok hrun]
      exact hf a s' (hkept.trans hk) (hq.le_size hs hrun) (by omega)
    | error e => rw [bind_run_error (hsame.trans hrun), bind_run_error hrun]

lemma bind_run_congr {s : ParserState} (h : p tokens s = q tokens s) :
    (p >>= f) tokens s = (q >>= f) tokens s := by
  simp only [bind, h]

/-- Steps that are the same in both parsers may follow. -/
lemma same_bind_last (hp : Same tokens k r p q) : Same tokens k r (p >>= f) (q >>= f) :=
  fun s hk hs hr => bind_run_congr (hp s hk hs hr)

/-- After a step that takes a token one token less is left. -/
lemma same_take_bind (hp : Advances p) (hscans : Scans anywhere p)
    (hf : ∀ a, Same tokens k r (f a) (g a)) : Same tokens k (r + 1) (p >>= f) (p >>= g) := by
  intro s hk hs hr
  have hkept := (hscans.keeps tokens s).2.2
  cases hrun : p tokens s with
  | mk result s' =>
    rw [hrun] at hkept
    cases result with
    | ok a =>
      have hlt := hp _ _ _ _ hrun
      have hle := hscans.le_size hs hrun
      rw [bind_run_ok hrun, bind_run_ok hrun]
      exact hf a s' (hkept.trans hk) hle (by omega)
    | error e => rw [bind_run_error hrun, bind_run_error hrun]

lemma sameHere_advance_bind {f g : Option Token → Parser β}
    (hf : ∀ a, Same tokens k r (f a) (g a)) :
    SameHere tokens k (r + 1) (advance >>= f) (advance >>= g) := by
  intro s hk hs hr
  have hrun : advance tokens s =
      (.ok (some tokens[s.index]), { s with index := s.index + 1 }) := by
    unfold advance
    rw [Array.getElem?_eq_getElem hs]
  rw [bind_run_ok hrun, bind_run_ok hrun]
  exact hf _ _ hk hs (by dsimp only; omega)

lemma same_peekKind_bind {f g : Option TokenKind → Parser β}
    (hsome : ∀ kind, SameHere tokens k r (f (some kind)) (g (some kind)))
    (hnone : Same tokens k r (f none) (g none)) :
    Same tokens k r (peekKind >>= f) (peekKind >>= g) := by
  intro s hk hs hr
  rw [bind_run_ok (peekKind_run_index _ _), bind_run_ok (peekKind_run_index _ _)]
  by_cases hsize : s.index < tokens.size
  · rw [Array.getElem?_eq_getElem hsize, Option.map_some]
    exact hsome _ s hk hsize hr
  · rw [Array.getElem?_eq_none (by omega), Option.map_none]
    exact hnone s hk hs hr

lemma same_ite {c : Prop} [Decidable c] {p' q' : Parser α} (hp : Same tokens k r p q)
    (hp' : Same tokens k r p' q') :
    Same tokens k r (if c then p else p') (if c then q else q') := by
  by_cases hc : c
  · rw [if_pos hc, if_pos hc]
    exact hp
  · rw [if_neg hc, if_neg hc]
    exact hp'

lemma sameHere_ite {c : Prop} [Decidable c] {p' q' : Parser α} (hp : SameHere tokens k r p q)
    (hp' : SameHere tokens k r p' q') :
    SameHere tokens k r (if c then p else p') (if c then q else q') := by
  by_cases hc : c
  · rw [if_pos hc, if_pos hc]
    exact hp
  · rw [if_neg hc, if_neg hc]
    exact hp'

lemma same_optional (h : Same tokens k r p q) : Same tokens k r (optional p) (optional q) := by
  intro s hk hs hr
  have hsame := h s hk hs hr
  cases hrun : q tokens s with
  | mk result s' =>
    cases result with
    | ok a => rw [optional_run_ok (hsame.trans hrun), optional_run_ok hrun]
    | error e => rw [optional_run_error (hsame.trans hrun), optional_run_error hrun]

lemma same_many (starts : TokenKind → Bool) (h : Same tokens k r p q) (hq : Scans anywhere q) :
    Same tokens k r (many starts p) (many starts q) := by
  refine same_bind (.refl _) (.read _) fun count => ?_
  induction count with
  | zero => exact .refl _
  | succ count ih =>
    refine same_bind (.refl _) (scans_startsWith starts) fun _ => same_ite ?_ (.refl _)
    exact same_bind h hq fun _ => same_bind_last ih

lemma same_between (opening closing : TokenKind) (h : Same tokens k r p q) :
    Same tokens k (r + 1) (between opening closing p) (between opening closing q) :=
  same_take_bind (advances_expect _) (scans_expect _) fun _ => same_bind_last h

lemma same_separated (separator : TokenKind) (h : Same tokens k r p q) (hq : Scans anywhere q) :
    Same tokens k r (separated separator p) (separated separator q) := by
  refine same_bind h hq fun _ => same_bind_last ?_
  refine same_many _ ?_ (.bind (scans_expect _) fun _ => hq)
  exact same_bind (.refl _) (scans_expect _) fun _ => h

end Combinators

/-- What stands one level deeper agrees at depth `k` where less than `r` tokens are left. An array
type is asked for only at a token, and takes it. -/
structure DeeperSame (tokens : Array Token) (k r : Nat) (d d' : Deeper) : Prop where
  exprFrom : ∀ rank, Same tokens k r (d.exprFrom rank) (d'.exprFrom rank)
  operand : Same tokens k r d.operand d'.operand
  simple : Same tokens k r d.simple d'.simple
  ty : Same tokens k r d.ty d'.ty
  arrayTy : SameHere tokens k (r + 1) d.arrayTy d'.arrayTy
  pattern : Same tokens k r d.pattern d'.pattern

lemma same_expect_bind {kind : TokenKind} {f g : Token → Parser β}
    (hf : ∀ token, Same tokens k r (f token) (g token)) :
    Same tokens k (r + 1) (expect kind >>= f) (expect kind >>= g) :=
  same_take_bind (advances_expect _) (scans_expect _) hf

/-- A step that is the same in both parsers and only scans. -/
lemma same_step {p : Parser α} {f g : α → Parser β} (hp : Scans anywhere p)
    (hf : ∀ a, Same tokens k r (f a) (g a)) : Same tokens k r (p >>= f) (p >>= g) :=
  same_bind (.refl _) hp hf

lemma same_typeAtom (h : DeeperSame tokens k r d d') :
    Same tokens k (r + 1) (typeAtom d) (typeAtom d') := by
  refine same_peekKind_bind (fun kind => ?_) (.refl _)
  split
  · exact (Same.refl _).here
  · exact (same_between _ _ h.ty).here
  · exact h.arrayTy
  · exact (Same.refl _).here
  · exact (Same.refl _).here

lemma same_typeOperand (h : DeeperSame tokens k r d d') :
    Same tokens k (r + 1) (typeOperand d) (typeOperand d') :=
  same_bind_last (same_typeAtom h)

lemma same_arrowType (h : DeeperSame tokens k r d d') (hs : DeeperScans anywhere d') :
    Same tokens k (r + 1) (arrowType d) (arrowType d') := by
  refine same_bind (same_typeOperand h) (scans_typeOperand hs) fun _ => ?_
  refine same_step (scans_isAt _) fun _ => same_ite ?_ (.refl _)
  exact same_expect_bind fun _ => same_bind_last h.ty

lemma same_arrayType (h : DeeperSame tokens k r d d') :
    Same tokens k (r + 1 + 1) (arrayType d) (arrayType d') := by
  refine same_expect_bind fun _ => ?_
  refine same_step scans_dimensions fun _ => same_step (scans_expect _) fun _ => ?_
  exact same_bind_last (same_typeOperand h)

lemma same_annotated (h : DeeperSame tokens k r d d') :
    Same tokens k (r + 1) (optionalType d) (optionalType d') :=
  same_optional (same_expect_bind fun _ => h.ty)

lemma same_simplePattern (h : DeeperSame tokens k r d d') :
    Same tokens k (r + 1) (simplePattern d) (simplePattern d') := by
  refine same_peekKind_bind (fun kind => ?_) (.refl _)
  split
  · exact (same_between _ _ h.pattern).here
  all_goals exact (Same.refl _).here

lemma same_pattern (h : DeeperSame tokens k r d d') (hs : DeeperScans anywhere d') :
    Same tokens k (r + 1) (pattern d) (pattern d') := by
  refine same_step (scans_isAt _) fun _ => same_ite ?_ (same_simplePattern h)
  refine same_step scans_conid fun _ => same_bind_last ?_
  exact same_many _ (same_simplePattern h) (scans_simplePattern hs)

lemma same_wholeExpr (h : DeeperSame tokens k r d d') :
    Same tokens k r (wholeExpr d) (wholeExpr d') := h.exprFrom anyRank

lemma same_indices (h : DeeperSame tokens k r d d') (hs : DeeperScans anywhere d') :
    Same tokens k (r + 1) (between .lBracket .rBracket (exprList d))
      (between .lBracket .rBracket (exprList d')) :=
  same_between _ _ (same_separated _ (same_wholeExpr h) (scans_wholeExpr hs))

lemma same_param (h : DeeperSame tokens k r d d') :
    Same tokens k (r + 1) (param d) (param d') := by
  refine same_step (scans_isAt _) fun _ => same_ite (.refl _) ?_
  refine same_step (.label _ (scans_expect _)) fun _ => same_step scans_genid fun _ => ?_
  exact same_expect_bind fun _ => same_bind_last h.ty

lemma same_mutableDef (h : DeeperSame tokens k r d d') (hs : DeeperScans anywhere d') :
    Same tokens k (r + 1) (mutableDef d) (mutableDef d') := by
  refine same_step (scans_expect _) fun _ => same_step scans_genid fun _ => ?_
  refine same_step (scans_isAt _) fun _ => same_ite ?_ (same_bind_last (same_annotated h))
  exact same_bind (same_indices h hs) (scans_indices hs) fun _ => same_bind_last (same_annotated h)

lemma same_functionDef (h : DeeperSame tokens k r d d') (hs : DeeperScans anywhere d') :
    Same tokens k (r + 1) (functionDef d) (functionDef d') := by
  refine same_step (.label _ scans_genid) fun _ => ?_
  refine same_bind (same_many _ (same_param h) (scans_param hs)) (scans_many _ (scans_param hs))
    fun _ => same_bind (same_annotated h) (scans_annotated hs) fun _ => ?_
  exact same_expect_bind fun _ => same_bind_last (same_wholeExpr h)

lemma same_letDef (h : DeeperSame tokens k r d d') (hs : DeeperScans anywhere d') :
    Same tokens k (r + 1) (letDef d) (letDef d') :=
  same_step (scans_isAt _) fun _ => same_ite (same_mutableDef h hs) (same_functionDef h hs)

lemma same_letGroup (h : DeeperSame tokens k r d d') (hs : DeeperScans anywhere d') :
    Same tokens k (r + 1) (letGroup d) (letGroup d') := by
  refine same_step (scans_expect _) fun _ => same_step (.optional (scans_expect _)) fun _ => ?_
  exact same_bind_last (same_separated _ (same_letDef h hs) (scans_letDef hs))

lemma same_simpleExpr (h : DeeperSame tokens k r d d') (hs : DeeperScans anywhere d') :
    Same tokens k (r + 1) (simpleExpr d) (simpleExpr d') := by
  refine same_peekKind_bind (fun kind => ?_) (.refl _)
  split
  · refine Same.here (same_step scans_genid fun _ => same_step (scans_isAt _) fun _ => ?_)
    exact same_ite (same_bind_last (same_indices h hs)) (.refl _)
  · exact (Same.refl _).here
  · exact Same.here (same_expect_bind fun _ => same_bind_last h.simple)
  · refine Same.here (same_expect_bind fun _ => same_step (scans_isAt _) fun _ => ?_)
    exact same_ite (.refl _) (same_bind_last (same_wholeExpr h))
  · exact (Same.refl _).here
  · exact (Same.refl _).here

lemma same_arguments (h : DeeperSame tokens k r d d') (hs : DeeperScans anywhere d') :
    Same tokens k (r + 1) (many startsSimple (simpleExpr d)) (many startsSimple (simpleExpr d')) :=
  same_many _ (same_simpleExpr h hs) (scans_simpleExpr hs)

lemma same_variableOrCall (h : DeeperSame tokens k r d d') (hs : DeeperScans anywhere d') :
    Same tokens k (r + 1) (variableOrCall d) (variableOrCall d') :=
  same_step scans_genid fun _ => same_bind_last (same_arguments h hs)

lemma same_construction (h : DeeperSame tokens k r d d') (hs : DeeperScans anywhere d') :
    Same tokens k (r + 1) (construction d) (construction d') :=
  same_step scans_conid fun _ => same_bind_last (same_arguments h hs)

lemma same_forLoop (h : DeeperSame tokens k r d d') (hs : DeeperScans anywhere d') :
    Same tokens k (r + 1) (forLoop d) (forLoop d') := by
  refine same_expect_bind fun _ => same_step scans_genid fun _ => ?_
  refine same_step (scans_expect _) fun _ => ?_
  refine same_bind (same_wholeExpr h) (scans_wholeExpr hs) fun _ => ?_
  refine same_step (scans_tokenWhere _ _) fun _ => ?_
  refine same_bind (same_wholeExpr h) (scans_wholeExpr hs) fun _ => ?_
  exact same_step (scans_expect _) fun _ => same_bind_last (same_wholeExpr h)

lemma same_whileLoop (h : DeeperSame tokens k r d d') (hs : DeeperScans anywhere d') :
    Same tokens k (r + 1) (whileLoop d) (whileLoop d') := by
  refine same_expect_bind fun _ => ?_
  refine same_bind (same_wholeExpr h) (scans_wholeExpr hs) fun _ => ?_
  exact same_step (scans_expect _) fun _ => same_bind_last (same_wholeExpr h)

lemma same_conditional (h : DeeperSame tokens k r d d') (hs : DeeperScans anywhere d') :
    Same tokens k (r + 1) (conditional d) (conditional d') := by
  refine same_expect_bind fun _ => ?_
  refine same_bind (same_wholeExpr h) (scans_wholeExpr hs) fun _ => ?_
  refine same_step (scans_expect _) fun _ => ?_
  refine same_bind (h.exprFrom _) (hs.exprFrom _) fun _ => ?_
  refine same_step (scans_isAt _) fun _ => same_ite ?_ (.refl _)
  exact same_step (scans_expect _) fun _ => same_bind_last (h.exprFrom _)

lemma same_clause (h : DeeperSame tokens k r d d') (hs : DeeperScans anywhere d') :
    Same tokens k r (clause d) (clause d') := by
  refine same_bind h.pattern hs.pattern fun _ => same_step (scans_expect _) fun _ => ?_
  exact same_bind_last (same_wholeExpr h)

lemma same_matchWith (h : DeeperSame tokens k r d d') (hs : DeeperScans anywhere d') :
    Same tokens k (r + 1) (matchWith d) (matchWith d') := by
  refine same_expect_bind fun _ => ?_
  refine same_bind (same_wholeExpr h) (scans_wholeExpr hs) fun _ => ?_
  refine same_step (scans_expect _) fun _ => same_bind_last ?_
  exact same_separated _ (same_clause h hs) (scans_clause hs)

lemma same_letIn (h : DeeperSame tokens k r d d') (hs : DeeperScans anywhere d') :
    Same tokens k (r + 1) (letIn d) (letIn d') :=
  same_bind (same_letGroup h hs) (scans_letGroup hs) fun _ =>
    same_expect_bind fun _ => same_bind_last (same_wholeExpr h)

lemma same_primary (h : DeeperSame tokens k r d d') (hs : DeeperScans anywhere d') :
    Same tokens k (r + 1) (primary d) (primary d') := by
  refine same_peekKind_bind (fun kind => ?_) (same_simpleExpr h hs)
  split
  · refine Same.here (same_bind (.refl _) (.read _) fun _ => ?_)
    exact same_ite (same_simpleExpr h hs) (same_variableOrCall h hs)
  · exact (same_construction h hs).here
  · exact (Same.refl _).here
  · exact Same.here (same_expect_bind fun _ => same_bind_last h.ty)
  · exact (same_between _ _ (same_wholeExpr h)).here
  · exact (same_forLoop h hs).here
  · exact (same_whileLoop h hs).here
  · exact (same_conditional h hs).here
  · exact (same_matchWith h hs).here
  · exact (same_letIn h hs).here
  · exact (same_simpleExpr h hs).here

lemma same_prefixed (h : DeeperSame tokens k r d d') (op : UnaryOp) :
    Same tokens k r (prefixed d op) (prefixed d' op) := by
  refine same_bind (.refl _) (.read _) fun start => ?_
  refine same_ite (same_step (scans_leastInteger? start) ?_) (same_step (.pure _) ?_)
  all_goals
    intro least
    cases least with
    | some e => exact .refl _
    | none => exact same_bind_last h.operand

lemma same_unary (h : DeeperSame tokens k r d d') (hs : DeeperScans anywhere d') :
    Same tokens k (r + 1) (unary d) (unary d') := by
  refine same_peekKind_bind (fun kind => ?_) (same_primary h hs)
  split
  · exact (same_primary h hs).here
  · exact sameHere_advance_bind fun _ => same_bind (.refl _) (.read _) fun _ =>
      same_bind_last h.operand
  · split
    · exact sameHere_advance_bind fun _ => same_prefixed h _
    · exact (same_primary h hs).here

lemma same_climbUpTo (h : DeeperSame tokens k r d d') (hs : DeeperScans anywhere d')
    (rank count : Nat) (left : Expr) (chained : Option Nat) :
    Same tokens k (r + 1) (climbUpTo d rank count left chained)
      (climbUpTo d' rank count left chained) := by
  induction count generalizing left chained with
  | zero => exact .refl _
  | succ count ih =>
    refine same_peekKind_bind (fun kind => ?_) (.refl _)
    split
    · exact (Same.refl _).here
    · refine sameHere_ite (Same.refl _).here (sameHere_ite (Same.refl _).here ?_)
      refine sameHere_advance_bind fun _ => same_bind (h.exprFrom _) (hs.exprFrom _) fun _ => ?_
      exact same_step (scans_newSite _) fun _ => (ih _ _).mono (Nat.le_succ r)

lemma same_exprFrom (h : DeeperSame tokens k r d d') (hs : DeeperScans anywhere d') (rank : Nat) :
    Same tokens k (r + 1) (exprFrom d rank) (exprFrom d' rank) :=
  same_bind (same_unary h hs) (scans_unary hs) fun _ =>
    same_bind (.refl _) (.read _) fun _ => same_climbUpTo h hs rank _ _ _

lemma levelAbove_same (h : DeeperSame tokens k r d d') (hs : DeeperScans anywhere d') :
    DeeperSame tokens k (r + 1) (levelAbove d) (levelAbove d') :=
  ⟨same_exprFrom h hs, same_unary h hs, same_simpleExpr h hs, same_arrowType h hs,
    (same_arrayType h).here, same_pattern h hs⟩

/-- With as many levels as there are tokens left, what stands at the bottom is never asked for. -/
theorem levelsAbove_same (bottom : Deeper) (tokens : Array Token) (k levels : Nat) :
    DeeperSame tokens k levels (levelsAbove bottom levels) (deeper levels) := by
  induction levels with
  | zero =>
    have hnone : ∀ {α : Type} {p q : Parser α}, Same tokens k 0 p q :=
      fun s _ _ hr => absurd hr (Nat.not_lt_zero _)
    exact ⟨fun _ => hnone, hnone, hnone, hnone, fun s _ hs hr => by omega, hnone⟩
  | succ levels ih =>
    rw [deeper_succ]
    exact levelAbove_same ih (deeper_scans levels)

lemma same_constructorDef (h : DeeperSame tokens k r d d') (hs : DeeperScans anywhere d') :
    Same tokens k (r + 1) (constructorDef d) (constructorDef d') := by
  refine same_step scans_conid fun _ => same_step (scans_isAt _) fun _ => same_ite ?_ (.refl _)
  refine same_expect_bind fun _ => same_bind h.ty hs.ty fun _ => same_bind_last ?_
  exact same_many _ h.ty hs.ty

lemma same_typeGroup (h : DeeperSame tokens k r d d') (hs : DeeperScans anywhere d') :
    Same tokens k (r + 1) (typeGroup d) (typeGroup d') := by
  have hdef : Same tokens k (r + 1) (typeDef d) (typeDef d') := by
    refine same_step scans_typeName fun _ => same_step (scans_expect _) fun _ => same_bind_last ?_
    exact same_separated _ (same_constructorDef h hs) (scans_constructorDef hs)
  exact same_step (scans_expect _) fun _ =>
    same_bind_last (same_separated _ hdef (scans_typeDef hs))

lemma same_definition (h : DeeperSame tokens k r d d') (hs : DeeperScans anywhere d') :
    Same tokens k (r + 1) (definition d) (definition d') := by
  refine same_peekKind_bind (fun kind => ?_) (.refl _)
  split
  · exact (same_bind_last (same_typeGroup h hs)).here
  · exact (same_bind_last (same_letGroup h hs)).here
  · exact (Same.refl _).here

/-- Each round of reading definitions begins within the input, with no more tokens left, and at the
same depth. -/
lemma definitionsUpTo_same (h : DeeperSame tokens k r d d')
    (hs : ∀ {placed}, DeeperScans placed d') (count : Nat) {s : ParserState} (hdepth : s.depth = k)
    (hsize : s.index ≤ tokens.size) (hr : tokens.size - s.index ≤ r) :
    definitionsUpTo d count tokens s = definitionsUpTo d' count tokens s := by
  induction count generalizing s with
  | zero => rfl
  | succ count ih =>
    by_cases hend : tokens.size - s.index = 0
    · rw [definitionsUpTo, definitionsUpTo, bind_run_ok (remaining_run _ _),
        bind_run_ok (remaining_run _ _), if_pos hend, if_pos hend]
    · have hlt : s.index < tokens.size := by omega
      have hsame := same_definition h hs { s with furthest := none } hdepth hsize
        (Nat.lt_succ_of_le hr)
      have hkept := (definition_entered hs tokens { s with furthest := none }).depth
      rcases definition_ends hs (s := { s with furthest := none }) hlt rfl with
        ⟨first, s₁, hrun, hmore, hle⟩ | ⟨e, e', s₁, hrun, hfurthest, hblames⟩
      · rw [hrun] at hkept
        rw [definitionsUpTo_succ _ _ hend, definitionsUpTo_succ _ _ hend, hsame, hrun]
        dsimp only at hmore ⊢
        exact bind_run_congr (ih (hkept.trans hdepth) hle (by omega))
      · obtain ⟨hmore, hle⟩ := hblames.lt_nextStart hlt
        have hrest : tokens.size - (resumed tokens s.index e' s₁).index ≤ r := by
          change tokens.size - nextStart tokens (max e'.index (s.index + 1)) ≤ r
          dsimp only at hmore
          omega
        rw [hrun] at hkept
        rw [definitionsUpTo_failed count hlt (hsame.trans hrun) hfurthest,
          definitionsUpTo_failed count hlt hrun hfurthest]
        exact ih (hkept.trans hdepth) hle hrest

/-- As many levels as there are tokens suffice, whatever stands below them. -/
theorem definitions_levelsAbove (bottom : Deeper) (tokens : List Token) {levels : Nat}
    (h : tokens.length ≤ levels) :
    definitions (levelsAbove bottom levels) tokens.toArray ParserState.initial =
      definitions (deeper tokens.length) tokens.toArray ParserState.initial := by
  have hlevels : levelsAbove bottom levels =
      levelsAbove (levelsAbove bottom (levels - tokens.length)) tokens.length := by
    rw [levelsAbove_add, Nat.sub_add_cancel h]
  rw [hlevels]
  exact definitionsUpTo_same (levelsAbove_same _ _ _ _) (deeper_scans _) _ rfl (Nat.zero_le _)
    (Nat.le_refl _)

end Llama.Proofs
