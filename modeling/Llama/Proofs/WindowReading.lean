import Llama.Proofs.TokenWindows

/-!
# Reading in a window

Every production of the grammar does in a window alone what it does where the window stands.
-/

namespace Llama.Proofs

open Llama.Parser Llama.Grammar

variable {α β : Type} {d : Deeper} {w : Window} {agree : Prop} {s t : ParserState}

/-- What stands one level deeper carries over, and types also when they fail. -/
structure DeeperCarries (w : Window) (agree : Prop) (d : Deeper) : Prop where
  scans : DeeperScans anywhere d
  advances : DeeperAdvances d
  ty : Carries w True d.ty d.ty fun ty => ty
  arrayTy : Carries w True d.arrayTy d.arrayTy fun ty => ty
  exprFrom : ∀ rank, Carries w agree (d.exprFrom rank) (d.exprFrom rank) (shiftExpr w.shift)
  operand : Carries w agree d.operand d.operand (shiftExpr w.shift)
  simple : Carries w agree d.simple d.simple (shiftExpr w.shift)
  pattern : Carries w agree d.pattern d.pattern (shiftPattern w.shift)

lemma Carries.always {p q : Parser α} {view : α → α} (h : Carries w True p q view) :
    Carries w agree p q view :=
  h.weaken fun _ => trivial

lemma carries_genid : Carries w agree genid genid fun name => name :=
  (carries_label _ (carries_expect rfl)).bind fun _ => carries_pure rfl

lemma carries_conid : Carries w agree conid conid fun name => name :=
  (carries_label _ (carries_expect rfl)).bind fun _ => carries_pure rfl

lemma carries_typeName : Carries w agree typeName typeName fun name => name :=
  (carries_tokenWhere ⟨rfl, rfl⟩).bind fun _ => carries_pure rfl

lemma carries_constant : Carries w agree constant constant fun value => value := by
  apply carries_errorHere.bind
  intro e
  apply carries_startsWith_ite ⟨rfl, rfl⟩
  · apply carriesHere_advance.bind
    intro next
    cases next with
    | none => exact carries_failWith (w.index_errorView e)
    | some token =>
      dsimp only
      cases constantOf token.kind token.value with
      | ok value => exact carries_pure rfl
      | error note => exact carries_failWith (w.index_errorView e)
  · exact carries_failWith (w.index_errorView e)

lemma carries_typeAtom (h : DeeperCarries w agree d) :
    Carries w True (typeAtom d) (typeAtom d) fun ty => ty := by
  apply carries_peekKind rfl rfl
  · intro kind
    split
    · exact Carries.here (carries_genid.bind fun _ => carries_pure rfl)
    · exact (carries_between rfl rfl h.ty).here
    · exact h.arrayTy.here
    · split
      · exact carriesHere_advance.bind fun _ => carries_pure rfl
      · exact carries_unexpected.here
    · exact carries_unexpected.here
  · exact carries_unexpected

lemma carries_typeOperand (h : DeeperCarries w agree d) :
    Carries w True (typeOperand d) (typeOperand d) fun ty => ty := by
  apply (carries_typeAtom h).bind
  intro inner
  apply (carries_many (excludes_kind rfl) (carries_expect rfl) (advances_expect _)).bind
  intro refs
  exact carries_pure (by rw [List.map_id'])

lemma carries_arrowType (h : DeeperCarries w agree d) :
    Carries w True (arrowType d) (arrowType d) fun ty => ty := by
  apply (carries_typeOperand h).bind
  intro source
  apply carries_isAt_ite rfl
  · apply Carries.here
    exact (carries_expect rfl).bind fun _ => h.ty.bind fun _ => carries_pure rfl
  · exact carries_pure rfl

lemma carries_dimensions : Carries w agree dimensions dimensions fun n => n := by
  apply carries_isAt_ite rfl
  · apply Carries.here
    apply (carries_between rfl rfl (carries_separated rfl (carries_expect rfl)
      (scans_expect _))).bind
    intro stars
    exact carries_pure (by rw [List.length_map])
  · exact carries_pure rfl

lemma carries_arrayType (h : DeeperCarries w agree d) :
    Carries w True (arrayType d) (arrayType d) fun ty => ty :=
  (carries_expect rfl).bind fun _ => carries_dimensions.bind fun _ => (carries_expect rfl).bind
    fun _ => (carries_typeOperand h).bind fun _ => carries_pure rfl

lemma carries_annotated (h : DeeperCarries w agree d) :
    Carries w agree (optionalType d) (optionalType d) fun ty => ty := by
  apply (carries_optional ((carries_expect rfl).bind fun _ => h.ty)).congr
  exact fun _ => Option.map_id'

lemma carriesHere_signedConstant (literal : TokenKind) (negative : Bool)
    (hliteral : startsDefinition literal = false) :
    CarriesHere w agree (signedConstant literal negative) (signedConstant literal negative)
      (shiftPattern w.shift) := by
  apply carriesHere_advance.bind
  intro _
  apply carries_lastSpan.bind
  intro sign
  apply carries_errorHere.bind
  intro e
  apply (carries_expect hliteral).bind
  intro number
  split
  · exact (carries_newSite _).bind fun _ => carries_pure (by simp)
  · exact carries_failWith (w.index_errorView e)

lemma carries_simplePattern (h : DeeperCarries w agree d) :
    Carries w agree (simplePattern d) (simplePattern d) (shiftPattern w.shift) := by
  have hconstant : Carries w agree
      (do let read ← constant; return Pattern.const (← newSite read.2) read.1)
      (do let read ← constant; return Pattern.const (← newSite read.2) read.1)
      (shiftPattern w.shift) :=
    carries_constant.bind fun _ => (carries_newSite _).bind fun _ => carries_pure (by simp)
  apply carries_peekKind rfl rfl
  · intro kind
    split
    · exact (carries_between rfl rfl h.pattern).here
    · exact Carries.here (carries_genid.bind fun _ => (carries_newSite _).bind fun _ =>
        carries_pure (by simp))
    · exact Carries.here (carries_conid.bind fun _ => (carries_newSite _).bind fun _ =>
        carries_pure (by simp))
    · exact carriesHere_signedConstant _ _ rfl
    · exact carriesHere_signedConstant _ _ rfl
    · exact carriesHere_signedConstant _ _ rfl
    · exact carriesHere_signedConstant _ _ rfl
    · exact hconstant.here
    · exact hconstant.here
    · exact hconstant.here
    · exact hconstant.here
    · exact hconstant.here
    · exact carries_unexpected.here
  · exact carries_unexpected

lemma carries_pattern (h : DeeperCarries w agree d) :
    Carries w agree (pattern d) (pattern d) (shiftPattern w.shift) := by
  apply carries_isAt_ite rfl
  · apply Carries.here
    apply carries_conid.bind
    intro name
    apply (carries_many ⟨rfl, rfl⟩ (carries_simplePattern h)
      (advances_simplePattern h.scans)).bind
    intro args
    exact (carries_newSiteFrom _).bind fun _ => carries_pure (by simp [shiftPatterns_eq_map])
  · exact carries_simplePattern h

lemma carries_indices (h : DeeperCarries w agree d) :
    Carries w agree (between .lBracket .rBracket (exprList d))
      (between .lBracket .rBracket (exprList d)) (shiftExprs w.shift) := by
  apply carries_between rfl rfl
  apply (carries_separated rfl (h.exprFrom _) (h.scans.exprFrom _)).congr
  exact fun es => (shiftExprs_eq_map es).symm

lemma carries_param (h : DeeperCarries w agree d) :
    Carries w agree (param d) (param d) (shiftParam w.shift) := by
  apply carries_isAt_ite rfl
  · exact Carries.here (carries_genid.bind fun _ => (carries_newSite _).bind fun _ =>
      carries_pure rfl)
  · refine (carries_label _ (carries_expect rfl)).bind fun _ => carries_genid.bind fun _ => ?_
    refine (carries_expect rfl).bind fun _ => h.ty.always.bind fun _ => ?_
    refine (carries_expect rfl).bind fun _ => (carries_newSite _).bind fun _ => ?_
    exact carries_pure rfl

lemma carries_mutableDef (h : DeeperCarries w agree d) :
    Carries w agree (mutableDef d) (mutableDef d) (shiftDef w.shift) := by
  refine (carries_expect rfl).bind fun _ => carries_genid.bind fun _ => ?_
  apply carries_isAt_ite rfl
  · apply Carries.here
    refine (carries_indices h).bind fun _ => (carries_annotated h).bind fun _ => ?_
    exact (carries_newSiteFrom _).bind fun _ => carries_pure (by simp)
  · refine (carries_annotated h).bind fun _ => ?_
    exact (carries_newSiteFrom _).bind fun _ => carries_pure (by simp)

lemma carries_functionDef (h : DeeperCarries w agree d) :
    Carries w agree (functionDef d) (functionDef d) (shiftDef w.shift) := by
  refine (carries_label _ carries_genid).bind fun _ => ?_
  refine (carries_many ⟨rfl, rfl⟩ (carries_param h) (advances_param h.scans)).bind fun params => ?_
  refine (carries_annotated h).bind fun _ => (carries_expect rfl).bind fun _ => ?_
  refine (h.exprFrom _).bind fun body => ?_
  rw [span_shiftExpr]
  apply (carries_newSite _).bind
  intro site
  cases params with
  | nil => exact carries_pure (by simp)
  | cons first rest => exact carries_pure (by simp)

lemma carries_letDef (h : DeeperCarries w agree d) :
    Carries w agree (letDef d) (letDef d) (shiftDef w.shift) :=
  carries_isAt_ite rfl (carries_mutableDef h).here (carries_functionDef h)

lemma carries_afterLet (h : DeeperCarries w agree d) (start : Token) :
    Carries w agree (afterLet d start) (afterLet d start) (shiftGroup w.shift) := by
  refine (carries_optional (carries_expect rfl)).bind fun isRec => ?_
  refine (carries_separated rfl (carries_letDef h) (scans_letDef h.scans)).bind fun defs => ?_
  exact (carries_newSiteFrom _).bind fun _ => carries_pure (by simp [shiftDefs_eq_map])

lemma carriesHere_letGroup (h : DeeperCarries w agree d) :
    CarriesHere w agree (letGroup d) (letGroup d) (shiftGroup w.shift) :=
  (carriesHere_expect _).bind (carries_afterLet h)

lemma carries_variableOrElement (h : DeeperCarries w agree d) :
    Carries w agree (variableOrElement d) (variableOrElement d) (shiftExpr w.shift) := by
  apply carries_genid.bind
  intro name
  apply carries_isAt_ite rfl
  · apply Carries.here
    refine (carries_indices h).bind fun _ => ?_
    exact (carries_newSiteFrom _).bind fun _ => carries_pure (by simp)
  · exact (carries_newSite _).bind fun _ => carries_pure (by simp)

lemma carries_parenthesized (h : DeeperCarries w agree d) :
    Carries w agree (parenthesized d) (parenthesized d) (shiftExpr w.shift) := by
  apply (carries_expect rfl).bind
  intro start
  apply carries_isAt_ite rfl
  · apply Carries.here
    refine (carries_expect rfl).bind fun _ => ?_
    exact (carries_newSite _).bind fun _ => carries_pure (by simp)
  · exact (h.exprFrom _).bind fun _ => (carries_expect rfl).bind fun _ => carries_pure rfl

lemma carries_dereference (h : DeeperCarries w agree d) :
    Carries w agree (dereference d) (dereference d) (shiftExpr w.shift) := by
  refine (carries_expect rfl).bind fun start => h.simple.bind fun operand => ?_
  rw [span_shiftExpr]
  exact (carries_newSite _).bind fun _ => carries_pure (by simp)

lemma carries_simpleExpr (h : DeeperCarries w agree d) :
    Carries w agree (simpleExpr d) (simpleExpr d) (shiftExpr w.shift) := by
  apply carries_peekKind rfl rfl
  · intro kind
    split
    · exact (carries_variableOrElement h).here
    · exact Carries.here (carries_conid.bind fun _ => (carries_newSite _).bind fun _ =>
        carries_pure (by simp))
    · exact (carries_dereference h).here
    · exact (carries_parenthesized h).here
    · split
      · exact Carries.here (carries_constant.bind fun _ => (carries_newSite _).bind fun _ =>
          carries_pure (by simp))
      · exact carries_unexpected.here
    · exact carries_unexpected.here
  · exact carries_unexpected

lemma carries_arguments (h : DeeperCarries w agree d) :
    Carries w agree (many startsSimple (simpleExpr d)) (many startsSimple (simpleExpr d))
      (List.map (shiftExpr w.shift)) :=
  carries_many ⟨rfl, rfl⟩ (carries_simpleExpr h) (advances_simpleExpr h.scans)

lemma carries_variableOrCall (h : DeeperCarries w agree d) :
    Carries w agree (variableOrCall d) (variableOrCall d) (shiftExpr w.shift) := by
  refine carries_genid.bind fun _ => (carries_arguments h).bind fun args => ?_
  cases args with
  | nil => exact (carries_newSite _).bind fun _ => carries_pure (by simp)
  | cons => exact (carries_newSiteFrom _).bind fun _ => carries_pure (by simp [shiftExprs_eq_map])

lemma carries_construction (h : DeeperCarries w agree d) :
    Carries w agree (construction d) (construction d) (shiftExpr w.shift) := by
  refine carries_conid.bind fun _ => (carries_arguments h).bind fun args => ?_
  cases args with
  | nil => exact (carries_newSite _).bind fun _ => carries_pure (by simp)
  | cons => exact (carries_newSiteFrom _).bind fun _ => carries_pure (by simp [shiftExprs_eq_map])

lemma carries_dimensionNumber :
    Carries w agree dimensionNumber dimensionNumber fun n => n := by
  apply carries_isAt_ite rfl
  · apply Carries.here
    refine carries_errorHere.bind fun e => (carries_expect rfl).bind fun token => ?_
    cases Text.int64? token.value.toList with
    | some n => exact carries_pure rfl
    | none => exact carries_failWith (w.index_errorView e)
  · exact carries_pure rfl

lemma carries_arrayDim : Carries w agree arrayDim arrayDim (shiftExpr w.shift) :=
  (carries_expect rfl).bind fun _ => carries_dimensionNumber.bind fun _ => carries_genid.bind
    fun _ => (carries_newSite _).bind fun _ => carries_pure (by simp)

lemma carries_newRef (h : DeeperCarries w agree d) :
    Carries w agree (newRef d) (newRef d) (shiftExpr w.shift) :=
  (carries_expect rfl).bind fun _ => h.ty.always.bind fun _ => (carries_newSiteFrom _).bind
    fun _ => carries_pure (by simp)

lemma carries_forLoop (h : DeeperCarries w agree d) :
    Carries w agree (forLoop d) (forLoop d) (shiftExpr w.shift) := by
  refine (carries_expect rfl).bind fun _ => carries_genid.bind fun _ => ?_
  refine (carries_expect rfl).bind fun _ => (h.exprFrom _).bind fun _ => ?_
  refine (carries_tokenWhere ⟨rfl, rfl⟩).bind fun _ => (h.exprFrom _).bind fun _ => ?_
  refine (carries_expect rfl).bind fun _ => (h.exprFrom _).bind fun _ => ?_
  refine (carries_expect rfl).bind fun _ => (carries_newSiteFrom _).bind fun _ => ?_
  exact carries_pure (by simp)

lemma carries_whileLoop (h : DeeperCarries w agree d) :
    Carries w agree (whileLoop d) (whileLoop d) (shiftExpr w.shift) := by
  refine (carries_expect rfl).bind fun _ => (h.exprFrom _).bind fun _ => ?_
  refine (carries_expect rfl).bind fun _ => (h.exprFrom _).bind fun _ => ?_
  refine (carries_expect rfl).bind fun _ => (carries_newSiteFrom _).bind fun _ => ?_
  exact carries_pure (by simp)

lemma carries_conditional (h : DeeperCarries w agree d) :
    Carries w agree (conditional d) (conditional d) (shiftExpr w.shift) := by
  refine (carries_expect rfl).bind fun _ => (h.exprFrom _).bind fun _ => ?_
  refine (carries_expect rfl).bind fun _ => (h.exprFrom _).bind fun _ => ?_
  apply carries_isAt_ite rfl
  · apply Carries.here
    refine (carries_expect rfl).bind fun _ => (h.exprFrom _).bind fun _ => ?_
    exact (carries_newSiteFrom _).bind fun _ => carries_pure (by simp)
  · exact (carries_newSiteFrom _).bind fun _ => carries_pure (by simp)

lemma carries_clause (h : DeeperCarries w agree d) :
    Carries w agree (clause d) (clause d) (shiftClause w.shift) := by
  refine h.pattern.bind fun _ => (carries_expect rfl).bind fun _ => (h.exprFrom _).bind fun _ => ?_
  rw [span_shiftExpr, span_shiftPattern]
  exact (carries_newSite _).bind fun _ => carries_pure rfl

lemma carries_matchWith (h : DeeperCarries w agree d) :
    Carries w agree (matchWith d) (matchWith d) (shiftExpr w.shift) := by
  refine (carries_expect rfl).bind fun _ => (h.exprFrom _).bind fun _ => ?_
  refine (carries_expect rfl).bind fun _ => ?_
  refine (carries_separated rfl (carries_clause h) (scans_clause h.scans)).bind fun _ => ?_
  refine (carries_expect rfl).bind fun _ => (carries_newSiteFrom _).bind fun _ => ?_
  exact carries_pure (by simp [shiftClauses_eq_map])

lemma carriesHere_letIn (h : DeeperCarries w agree d) :
    CarriesHere w agree (letIn d) (letIn d) (shiftExpr w.shift) := by
  refine (carriesHere_letGroup h).bind fun _ => (carries_expect rfl).bind fun _ => ?_
  refine (h.exprFrom _).bind fun _ => ?_
  rw [span_shiftExpr, span_shiftGroup]
  exact (carries_newSite _).bind fun _ => carries_pure (by simp)

lemma carriesHere_peekKindAt_ite {p p' q q' : Parser β} {view : β → β} {kind : TokenKind}
    (hkind : startsDefinition kind = false) (hp : CarriesHere w agree p p' view)
    (hq : CarriesHere w agree q q' view) :
    CarriesHere w agree (peekKindAt 1 >>= fun next => if (next == some kind) = true then p else q)
      (peekKindAt 1 >>= fun next => if (next == some kind) = true then p' else q') view := by
  intro s t hst hlt
  have hsame : (w.whole[t.index + 1]?.map Token.kind == some kind) =
      (w.inner[s.index + 1]?.map Token.kind == some kind) := by
    rw [hst.index, Nat.add_assoc]
    obtain hmore | hlast := Nat.lt_or_eq_of_le (show s.index + 1 ≤ w.tokens.length from hlt)
    · rw [Window.whole_of_lt hmore]
    · rw [Window.inner_end hlast, hlast,
        Window.whole_end, beq_some_eq_any]
      exact (excludes_kind hkind).any_after w
  have hcarries : CarriesAt w agree
      (if (w.inner[s.index + 1]?.map Token.kind == some kind) = true then p else q)
      (if (w.whole[t.index + 1]?.map Token.kind == some kind) = true then p' else q') view s t := by
    rw [hsame]
    split
    · exact hp s t hst hlt
    · exact hq s t hst hlt
  exact hcarries.of_runs rfl rfl

lemma simpleExpr_run_end {tokens : Array Token} (hnone : tokens[s.index]? = none) :
    simpleExpr d tokens s = unexpected "expression" tokens s := by
  have hpeek : peekKind tokens s = (.ok none, s) := by
    rw [← Option.map_none, ← hnone]
    rfl
  rw [simpleExpr, bind_run_ok hpeek]

/-- Where an expression is due at the end of the window, the window alone is not read. -/
lemma carries_primary (hagree : agree → w.after = []) (h : DeeperCarries w agree d) :
    Carries w agree (primary d) (primary d) (shiftExpr w.shift) := by
  apply carries_peekKind_end
  · intro kind
    split
    · exact carriesHere_peekKindAt_ite rfl (carries_simpleExpr h).here
        (carries_variableOrCall h).here
    · exact (carries_construction h).here
    · exact carries_arrayDim.here
    · exact (carries_newRef h).here
    · exact (carries_between rfl rfl (h.exprFrom _)).here
    · exact (carries_forLoop h).here
    · exact (carries_whileLoop h).here
    · exact (carries_conditional h).here
    · exact (carries_matchWith h).here
    · exact carriesHere_letIn h
    · exact (carries_simpleExpr h).here
  -- A `let` after the window would start an expression, but in the window alone nothing is there.
  · intro s t hst hend
    by_cases hafter : w.after = []
    · rw [hafter]
      exact carries_simpleExpr h s t hst
    · refine carriesAt_error (simpleExpr_run_end (Window.inner_end hend)) fun ha => ?_
      exact absurd (hagree ha) hafter

lemma carries_leastInteger? (sign : Span) :
    Carries w agree (leastInteger? sign) (leastInteger? sign)
      (Option.map (shiftExpr w.shift)) := by
  apply carries_peek
  · rintro token (hkind | hkind)
    · simp only [hkind]
      rfl
    · simp only [hkind]
      rfl
  · intro token
    dsimp only
    split
    · cases Text.int64? ('-' :: token.value.toList) with
      | some value =>
        exact carriesHere_advance.bind fun _ => (carries_newSite _).bind fun _ =>
          carries_pure (by simp)
      | none => exact Carries.here (carries_pure rfl)
    · exact Carries.here (carries_pure rfl)
  · exact carries_pure rfl

lemma carries_prefixed (h : DeeperCarries w agree d) (op : UnaryOp) :
    Carries w agree (prefixed d op) (prefixed d op) (shiftExpr w.shift) := by
  apply carries_lastSpan.bind
  intro start
  have hnone : Carries w agree (pure none) (pure none) (Option.map (shiftExpr w.shift)) :=
    carries_pure rfl
  refine carries_ite ((carries_leastInteger? start).bind ?_) (hnone.bind ?_)
  all_goals
    intro least
    cases least with
    | some e => exact carries_pure rfl
    | none =>
      refine h.operand.bind fun operand => ?_
      rw [span_shiftExpr]
      exact (carries_newSite _).bind fun _ => carries_pure (by simp)

lemma carries_unary (hagree : agree → w.after = []) (h : DeeperCarries w agree d) :
    Carries w agree (unary d) (unary d) (shiftExpr w.shift) := by
  apply carries_peekKind rfl rfl
  · intro kind
    split
    · exact (carries_primary hagree h).here
    · refine carriesHere_advance.bind fun _ => carries_lastSpan.bind fun _ => ?_
      refine h.operand.bind fun _ => ?_
      rw [span_shiftExpr]
      exact (carries_newSite _).bind fun _ => carries_pure (by simp)
    · split
      · exact carriesHere_advance.bind fun _ => carries_prefixed h _
      · exact (carries_primary hagree h).here
  · exact carries_primary hagree h

lemma climbUpTo_stop {rank : Nat} {left : Expr} {chained : Option Nat} {tokens : Array Token}
    (hnext : (tokens[s.index]?.map Token.kind).bind BinaryOp.ofToken? = none) (n : Nat) :
    climbUpTo d rank n left chained tokens s = (.ok left, s) := by
  cases n with
  | zero => rfl
  | succ n =>
    rw [climbUpTo, bind_run_ok (peekKind_run_index _ _), hnext]
    rfl

lemma CarriesAt.climbUpTo_end {rank : Nat} {left : Expr} {chained : Option Nat}
    (hst : Aligned w s t) (hend : s.index = w.tokens.length) (n n' : Nat) :
    CarriesAt w agree (climbUpTo d rank n left chained)
      (climbUpTo d rank n' (shiftExpr w.shift left) chained) (shiftExpr w.shift) s t := by
  have hstop : climbUpTo d rank n left chained w.inner s = (.ok left, s) := by
    apply climbUpTo_stop
    rw [Window.inner_end hend]
    rfl
  have hstop' : climbUpTo d rank n' (shiftExpr w.shift left) chained w.whole t =
      (.ok (shiftExpr w.shift left), t) := by
    apply climbUpTo_stop
    rw [hst.next_end hend]
    obtain hnext | ⟨token, hnext, hkind | hkind⟩ := w.after_cases
    · rw [hnext]
      rfl
    · rw [hnext, Option.map_some, hkind]
      rfl
    · rw [hnext, Option.map_some, hkind]
      rfl
  exact carriesAt_ok hstop hstop' hst

lemma CarriesAt.climbUpTo (h : DeeperCarries w agree d) (rank n n' : Nat) (left : Expr)
    (chained : Option Nat) (hst : Aligned w s t) (hn : w.tokens.length - s.index ≤ n)
    (hn' : w.tokens.length - s.index ≤ n') :
    CarriesAt w agree (Grammar.climbUpTo d rank n left chained)
      (Grammar.climbUpTo d rank n' (shiftExpr w.shift left) chained) (shiftExpr w.shift) s t := by
  induction n generalizing n' left chained s t with
  | zero =>
    have hle := hst.le
    exact climbUpTo_end hst (by omega) _ _
  | succ n ih =>
    obtain hlt | hend := hst.lt_or_end
    · obtain ⟨n', rfl⟩ : ∃ m, n' = m + 1 := ⟨n' - 1, by omega⟩
      apply CarriesAt.peekKind hst
      · intro kind hlt
        simp only [Option.bind_some]
        cases BinaryOp.ofToken? kind with
        | none => exact .pure hst rfl
        | some op =>
          dsimp only
          split
          · exact .pure hst rfl
          · split
            · exact (carries_errorHere s t hst).bind fun e _ _ _ hst' =>
                .failWith hst' (w.index_errorView e)
            · apply (carriesHere_advance s t hst hlt).bind
              intro _ s₁ t₁ hadvance hst₁
              have hmore := advancesHere_advance _ _ _ _ hlt hadvance
              apply (h.exprFrom _ s₁ t₁ hst₁).bind
              intro right s₂ t₂ hright hst₂
              have hle := (h.scans.exprFrom _).index_le hright
              rw [span_shiftExpr, span_shiftExpr]
              apply (carries_newSite _ s₂ t₂ hst₂).bind
              intro site s₃ t₃ hsite hst₃
              have hle' := (scans_newSite _).index_le hsite
              -- The operator was taken, so one less than the bound still is enough.
              have hrest := ih n' (.binary site op left right)
                (if op.assoc = .none then some op.rank else none) hst₃ (by omega) (by omega)
              rw [shiftExpr] at hrest
              exact hrest
      · intro hend
        omega
    · exact climbUpTo_end hst hend _ _

lemma carries_exprFrom (hagree : agree → w.after = []) (h : DeeperCarries w agree d)
    (rank : Nat) :
    Carries w agree (exprFrom d rank) (exprFrom d rank) (shiftExpr w.shift) := by
  apply (carries_unary hagree h).bind
  intro left s t hst
  have hindex := hst.index
  have hcarries := CarriesAt.climbUpTo h rank (w.inner.size - s.index) (w.whole.size - t.index)
    left none hst (Nat.le_refl _) (by rw [Window.size_whole]; omega)
  exact hcarries.of_runs rfl rfl

/-- However many levels are left, what stands below carries over. -/
lemma deeper_carries (hagree : agree → w.after = []) (levels : Nat) :
    DeeperCarries w agree (deeper levels) := by
  induction levels with
  | zero =>
    exact ⟨deeper_scans 0, deeper_advances 0, carries_tooDeep, carries_tooDeep,
      fun _ => carries_tooDeep, carries_tooDeep, carries_tooDeep, carries_tooDeep⟩
  | succ levels ih =>
    rw [deeper_succ]
    exact ⟨deeper_succ levels ▸ deeper_scans _, deeper_succ levels ▸ deeper_advances _,
      carries_arrowType ih, carries_arrayType ih,
      carries_exprFrom hagree ih, carries_unary hagree ih, carries_simpleExpr ih,
      carries_pattern ih⟩

lemma carries_constructorDef (h : DeeperCarries w agree d) :
    Carries w agree (constructorDef d) (constructorDef d) (shiftConstructor w.shift) := by
  apply carries_conid.bind
  intro name
  apply carries_isAt_ite rfl
  · apply Carries.here
    refine (carries_expect rfl).bind fun _ => h.ty.always.bind fun first => ?_
    refine (carries_many ⟨rfl, rfl⟩ h.ty.always h.advances.ty).bind fun rest => ?_
    rw [List.map_id']
    exact (carries_newSiteFrom _).bind fun _ => carries_pure rfl
  · exact (carries_newSiteFrom _).bind fun _ => carries_pure rfl

lemma carries_typeDef (h : DeeperCarries w agree d) :
    Carries w agree (typeDef d) (typeDef d) (shiftTypeDef w.shift) := by
  refine carries_typeName.bind fun _ => (carries_expect rfl).bind fun _ => ?_
  refine (carries_separated rfl (carries_constructorDef h)
    (scans_constructorDef h.scans)).bind fun _ => ?_
  exact (carries_newSiteFrom _).bind fun _ => carries_pure rfl

lemma carries_afterType (h : DeeperCarries w agree d) (start : Token) :
    Carries w agree (afterType d start) (afterType d start) (shiftTypeGroup w.shift) := by
  refine (carries_separated rfl (carries_typeDef h) (scans_typeDef h.scans)).bind fun _ => ?_
  exact (carries_newSiteFrom _).bind fun _ => carries_pure rfl

lemma carries_enterTree (group : TypeGroup) :
    Carries w agree (enterTree group) (enterTree (shiftTypeGroup w.shift group))
      (shiftTypeGroup w.shift) := by
  intro s t hst
  refine carriesAt_ok rfl rfl ?_
  exact ⟨hst.index, hst.nextId, hst.furthest, hst.pos, hst.le⟩

end Llama.Proofs
