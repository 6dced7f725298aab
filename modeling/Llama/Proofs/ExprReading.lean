import Llama.Proofs.PartReading

/-!
# Reading expressions and definitions

What `exprWords` and `defWords` write is read back as the same expression or definition, up to
sites: one lemma for each form, and the induction on trees at the end.
-/

namespace Llama.Proofs

open Llama.Parser Llama.Grammar

variable {texts : LiteralTexts} {site : Site} {ws : List Word} {post : Expr → Prop} {n : Nat}
  {operand body condition : Expr} {args : List Expr} {name : String} {ty : Option Ty}

lemma exprReads_binary {op : BinaryOp} {left right : Expr} (hl : ExprReads texts left)
    (hr : ExprReads texts right) : ExprReads texts (.binary site op left right) := by
  intro hw n hn
  rw [exprWritable] at hw
  rw [exprLevels] at hn
  rw [exprWords]
  unfold exprFrom
  refine reads_bind (reads_unary (fun _ => hl) hw.1 (by omega)) (fun l hleft => ?_)
    (fun _ _ => endsOperand_binaryKind op)
  refine reads_remaining_bind fun m => ?_
  rw [climbUpTo]
  refine reads_peekKind_bind ?_
  have hrank : ¬op.rank < anyRank := Nat.not_lt_zero _
  have hchain : (decide (op.assoc = Assoc.none) && decide (none = some op.rank)) = false := by
    simp
  simp only [Option.bind_some, ofToken?_binaryKind, hrank, hchain, Bool.false_eq_true, if_false]
  refine reads_advance_bind fun _ _ => ?_
  refine reads_bind_last ((reads_deeper_exprFrom hr hw.2 (by omega)).mono ?_ fun _ h => h)
    (fun r hright => reads_newSite_bind fun _ => ?_)
  · rintro _ rfl
    decide
  · refine reads_climbUpTo_stop ?_ ?_
    · rintro _ rfl
      rfl
    · rw [bareExpr, bareExpr, hleft, hright]

/-- A form that is read as a whole by `unary` is read as an expression between parentheses. -/
lemma reads_exprFrom_closed {d : Deeper} (h : Reads (unary d) ws (fun k => k = some .rParen) post) :
    Reads (exprFrom d anyRank) ws (fun k => k = some .rParen) post := by
  refine reads_exprFrom_of_unary ?_ h
  rintro _ rfl
  rfl

/-- A literal that has a value of its own does not take the sign before it. -/
lemma reads_leastInteger_none_bind {f : Option Expr → Parser Expr} {sign : Span} {w : Word}
    {follow : Option TokenKind → Prop}
    (hvalue : w.1 = .intLiteral → (Text.int64? w.2.toList).isSome)
    (h : Reads (f none) (w :: ws) follow post) :
    Reads (leastInteger? sign >>= f) (w :: ws) follow post := by
  unfold leastInteger?
  rw [bind_assoc]
  refine reads_peek_bind fun token htoken => ?_
  have hother : (token.kind == .intLiteral && (Text.int64? token.value.toList).isNone) = false := by
    rw [← htoken] at hvalue
    by_cases hkind : token.kind = .intLiteral
    · have hsome : (Text.int64? token.value.toList).isSome := hvalue hkind
      obtain ⟨value, hread⟩ := Option.isSome_iff_exists.mp hsome
      rw [hread]
      simp
    · rw [beq_eq_false_iff_ne.mpr hkind]
      rfl
  simp only [hother, Bool.false_eq_true, if_false, pure_bind]
  exact h

lemma decodes_int {text : String} {n : Int} (h : Decodes text (.int n)) :
    Text.int64? text.toList = some n := by
  have hdecode : constantOf .intLiteral text = .ok (.int n) := h
  simp only [constantOf] at hdecode
  cases hread : Text.int64? text.toList with
  | none =>
    rw [hread] at hdecode
    simp at hdecode
  | some k =>
    rw [hread] at hdecode
    simpa using hdecode

/-- The digits of an operand have a value of their own. -/
lemma wrap_exprWords_int {e : Expr} {w : Word} (hw : exprWritable texts e)
    (hwords : wrap (exprIsAtom e) (exprWords texts e) = w :: ws) (hint : w.1 = .intLiteral) :
    (Text.int64? w.2.toList).isSome := by
  cases hatom : exprIsAtom e with
  | false =>
    rw [hatom] at hwords
    have hparen : terminal .lParen = w := (List.cons.inj hwords).1
    rw [← hparen] at hint
    simp at hint
  | true =>
    rw [hatom] at hwords
    cases e with
    | const site value =>
      rw [exprWritable] at hw
      simp only [wrap, if_true, exprWords] at hwords
      cases value with
      | int n =>
        have hn : n ≠ leastInt := by simpa [exprIsAtom] using hatom
        rw [constWords, if_neg hn] at hwords
        have hlit : (TokenKind.intLiteral, texts.plain (.int n)) = w := (List.cons.inj hwords).1
        rw [← hlit, decodes_int (hw.resolve_left hn)]
        rfl
      | bool b =>
        cases b <;>
        · rw [← (List.cons.inj hwords).1] at hint
          simp [literalKind] at hint
      | _ =>
        rw [← (List.cons.inj hwords).1] at hint
        simp [literalKind] at hint
    | constr site name =>
      simp only [wrap, if_true, exprWords] at hwords
      rw [← (List.cons.inj hwords).1] at hint
      simp at hint
    | var site name =>
      simp only [wrap, if_true, exprWords] at hwords
      rw [← (List.cons.inj hwords).1] at hint
      simp at hint
    | _ => simp [exprIsAtom] at hatom

lemma reads_prefixed {op : UnaryOp} (h : ExprReads texts operand) (hw : exprWritable texts operand)
    (hn : wrapLevels (exprIsAtom operand) (exprLevels operand) + 1 ≤ n) :
    Reads (prefixed (deeper n) op) (wrap (exprIsAtom operand) (exprWords texts operand))
      endsOperand (fun e => bareExpr e = .unary default op (bareExpr operand)) := by
  unfold prefixed
  refine reads_read_bind fun start => ?_
  have hoperand := reads_deeper_operand h hw hn
  obtain ⟨w, ws, hwords, -⟩ := wrap_exprWords_first texts operand
  have hint := wrap_exprWords_int hw hwords
  rw [hwords] at hoperand ⊢
  have hrest : Reads (do
      let e ← (deeper n).operand
      return .unary (← newSite (start.merge e.site.span)) op e) (w :: ws) endsOperand
      (fun e => bareExpr e = .unary default op (bareExpr operand)) := by
    refine reads_bind_last hoperand (fun e he => reads_newSite_bind fun _ => reads_pure ?_)
    rw [bareExpr, he]
  by_cases hminus : op = .minus
  · simp only [hminus, if_true] at hrest ⊢
    exact reads_leastInteger_none_bind hint hrest
  · simp only [hminus, if_false, pure_bind]
    exact hrest

lemma exprReads_unary {op : UnaryOp} (h : ExprReads texts operand) :
    ExprReads texts (.unary site op operand) := by
  intro hw n hn
  rw [exprWritable] at hw
  rw [exprLevels] at hn
  rw [exprWords]
  refine reads_exprFrom_closed ?_
  by_cases hderef : op = .deref
  · subst hderef
    refine reads_unary_of_primary (by decide) (by decide) ?_
    unfold primary
    refine reads_peekKind_bind ?_
    unfold simpleExpr
    refine reads_peekKind_bind ?_
    unfold dereference
    refine reads_expect_bind fun _ _ => ?_
    refine reads_bind_last ((reads_deeper_simple h hw hn).mono ?_ fun _ h => h)
      (fun e he => reads_newSite_bind fun _ => reads_pure ?_)
    · rintro _ rfl
      decide
    · rw [bareExpr, bareExpr, he]
  · unfold unary
    refine reads_peekKind_bind ?_
    have hprefixed : Reads (prefixed (deeper n) op)
        (wrap (exprIsAtom operand) (exprWords texts operand)) (fun k => k = some .rParen)
        (fun e => bareExpr e = bareExpr (.unary site op operand)) := by
      rw [bareExpr]
      refine (reads_prefixed h hw hn).mono ?_ fun _ h => h
      rintro _ rfl
      decide
    cases op with
    | deref => exact absurd rfl hderef
    | _ => exact reads_advance_bind fun _ _ => hprefixed

lemma exprReads_delete (h : ExprReads texts operand) : ExprReads texts (.delete site operand) := by
  intro hw n hn
  rw [exprWritable] at hw
  rw [exprLevels] at hn
  rw [exprWords]
  refine reads_exprFrom_closed ?_
  unfold unary
  refine reads_peekKind_bind (reads_advance_bind fun _ _ => reads_read_bind fun start => ?_)
  refine reads_bind_last ((reads_deeper_operand h hw hn).mono ?_ fun _ h => h)
    (fun e he => reads_newSite_bind fun _ => reads_pure ?_)
  · rintro _ rfl
    decide
  · rw [bareExpr, bareExpr, he]

lemma exprReads_atom {e : Expr} (hatom : exprIsAtom e = true) : ExprReads texts e := by
  intro hw n hn
  refine reads_exprFrom_closed ?_
  have hunary : Reads (unary (deeper n)) (wrap (exprIsAtom e) (exprWords texts e)) endsOperand
      (fun e' => bareExpr e' = bareExpr e) := by
    refine reads_unary (fun hcompound => ?_) hw ?_
    · exact absurd (hatom.symm.trans hcompound) (by decide)
    · rw [hatom]
      exact Nat.zero_le n
  rw [hatom] at hunary
  refine hunary.mono ?_ fun _ h => h
  rintro _ rfl
  decide

/-- The sign and the digits of the least integer are one constant. -/
lemma exprReads_leastInt : ExprReads texts (.const site (.int leastInt)) := by
  intro _ n _
  rw [exprWords, constWords, if_pos rfl]
  refine reads_exprFrom_closed ?_
  unfold unary
  refine reads_peekKind_bind (reads_advance_bind fun _ _ => ?_)
  unfold prefixed
  refine reads_read_bind fun start => ?_
  simp only [if_true]
  unfold leastInteger?
  rw [bind_assoc]
  refine reads_peek_bind fun token htoken => ?_
  have hkind : token.kind = .intLiteral := congrArg Prod.fst htoken
  have hvalue : token.value = leastIntDigits := congrArg Prod.snd htoken
  have hnone : Text.int64? leastIntDigits.toList = none := by decide
  have hleast : Text.int64? ('-' :: leastIntDigits.toList) = some leastInt := by decide
  simp only [hkind, hvalue, hnone, hleast, beq_self_eq_true, Option.isNone_none, Bool.and_self,
    if_true, bind_assoc]
  refine reads_advance_bind fun _ _ => reads_newSite_bind fun _ => ?_
  exact reads_pure (by rw [bareExpr, bareExpr])

lemma exprReads_const {value : Const} : ExprReads texts (.const site value) := by
  cases hatom : exprIsAtom (.const site value) with
  | true => exact exprReads_atom hatom
  | false =>
    cases value with
    | int n =>
      have hn : n = leastInt := by simpa [exprIsAtom] using hatom
      rw [hn]
      exact exprReads_leastInt
    | _ => simp [exprIsAtom] at hatom

/-- Arguments are read one after the other. -/
lemma reads_args (ih : ∀ e ∈ args, ExprReads texts e) (hw : ∀ e ∈ args, exprWritable texts e)
    (hn : ∀ e ∈ args, wrapLevels (exprIsAtom e) (exprLevels e) ≤ n) :
    Reads (many startsSimple (simpleExpr (deeper n)))
      (args.flatMap fun e => wrap (exprIsAtom e) (exprWords texts e)) endsOperand
      (fun as => as.map bareExpr = args.map bareExpr) := by
  refine reads_many (fun k => k ≠ some .lBracket) args (fun e he => ?_) (fun e he => ?_)
    (fun k hk => ⟨hk.2, hk.1⟩)
  · exact reads_simpleExpr (fun _ => ih e he) (hw e he) (hn e he)
  · obtain ⟨w, ws, hwords, hstarts⟩ := wrap_exprWords_first texts e
    refine ⟨w, ws, hwords, hstarts, ?_⟩
    intro hbracket
    rw [Option.some.inj hbracket] at hstarts
    exact absurd hstarts (by decide)

/-- A form that starts with its own word is read between parentheses once `primary` reads it. -/
lemma reads_exprFrom_primary {d : Deeper} {kind : TokenKind} {text : String}
    (hdelete : kind ≠ .kwDelete) (hop : UnaryOp.ofToken? kind = none)
    (h : Reads (primary d) ((kind, text) :: ws) (fun k => k = some .rParen) post) :
    Reads (exprFrom d anyRank) ((kind, text) :: ws) (fun k => k = some .rParen) post :=
  reads_exprFrom_closed (reads_unary_of_primary hdelete hop h)

lemma exprReads_call (ih : ∀ e ∈ args, ExprReads texts e) :
    ExprReads texts (.call site name args) := by
  intro hw n hn
  rw [exprWritable, exprListWritable_iff] at hw
  rw [exprLevels, exprListLevels_le] at hn
  rw [exprWords, exprListWords_eq_map, ← List.flatMap_def]
  refine reads_exprFrom_primary (by decide) (by decide) ?_
  unfold primary
  refine reads_peekKind_bind (reads_peekKindAt_bind fun k hk => ?_)
  obtain ⟨arg, rest, rfl⟩ := List.exists_cons_of_ne_nil hw.1
  obtain ⟨w, ws, hwords, hstarts⟩ := wrap_exprWords_first texts arg
  -- The word after the name starts an argument, so it is no bracket.
  have hbracket : (firstKind ((arg :: rest).flatMap
      fun e => wrap (exprIsAtom e) (exprWords texts e)) k == some .lBracket) = false := by
    rw [List.flatMap_cons, hwords]
    refine beq_eq_false_iff_ne.mpr fun heq => ?_
    rw [Option.some.inj heq] at hstarts
    exact absurd hstarts (by decide)
  rw [hbracket]
  simp only [Bool.false_eq_true, if_false]
  unfold variableOrCall
  refine reads_genid_bind fun _ => ?_
  refine reads_bind_last ((reads_args ih hw.2 hn).mono ?_ fun _ h => h) (fun as has => ?_)
  · rintro _ rfl
    decide
  · cases as with
    | nil => simp at has
    | cons a as =>
      refine reads_newSiteFrom_bind fun _ => reads_pure ?_
      rw [bareExpr, bareExpr, bareExprs_eq_map, bareExprs_eq_map, has]

lemma exprReads_construct (ih : ∀ e ∈ args, ExprReads texts e) :
    ExprReads texts (.construct site name args) := by
  intro hw n hn
  rw [exprWritable, exprListWritable_iff] at hw
  rw [exprLevels, exprListLevels_le] at hn
  rw [exprWords, exprListWords_eq_map, ← List.flatMap_def]
  refine reads_exprFrom_primary (by decide) (by decide) ?_
  unfold primary
  refine reads_peekKind_bind ?_
  unfold construction
  refine reads_conid_bind fun _ => ?_
  refine reads_bind_last ((reads_args ih hw.2 hn).mono ?_ fun _ h => h) (fun as has => ?_)
  · rintro _ rfl
    decide
  · cases as with
    | nil => exact absurd (List.map_eq_nil_iff.mp has.symm) hw.1
    | cons a as =>
      refine reads_newSiteFrom_bind fun _ => reads_pure ?_
      rw [bareExpr, bareExpr, bareExprs_eq_map, bareExprs_eq_map, has]

/-- Expressions between brackets, separated by commas. -/
lemma reads_bracketed {es : List Expr} (ih : ∀ e ∈ es, ExprReads texts e) (hne : es ≠ [])
    (hw : ∀ e ∈ es, exprWritable texts e) (hn : exprListLevels es + 1 ≤ n) :
    Reads (between .lBracket .rBracket (exprList (deeper n)))
      (terminal .lBracket :: (separatedWords (terminal .comma) (exprListWords texts es) ++
        [terminal .rBracket])) (fun _ => True)
      (fun as => as.map bareExpr = es.map bareExpr) := by
  have hlist : Reads (exprList (deeper n))
      (separatedWords (terminal .comma) (exprListWords texts es)) (fun k => k = some .rBracket)
      (fun as => as.map bareExpr = es.map bareExpr) := by
    unfold exprList wholeExpr
    rw [exprListWords_eq_map]
    refine reads_separated endsExpr es hne (fun e he => ?_) (by decide) ?_
    · have hlevels := exprListLevels_le.mp (Nat.le_refl _) e he
      exact reads_deeper_exprFrom (ih e he) (hw e he) (by omega)
    · rintro _ rfl
      decide
  exact reads_between hlist rfl

lemma exprReads_element {indices : List Expr} (ih : ∀ e ∈ indices, ExprReads texts e) :
    ExprReads texts (.element site name indices) := by
  intro hw n hn
  rw [exprWritable, exprListWritable_iff] at hw
  rw [exprLevels] at hn
  rw [exprWords]
  refine reads_exprFrom_primary (by decide) (by decide) ?_
  unfold primary
  refine reads_peekKind_bind (reads_peekKindAt_bind fun k _ => ?_)
  simp only [firstKind, beq_self_eq_true, if_true]
  unfold simpleExpr
  refine reads_peekKind_bind ?_
  unfold variableOrElement
  refine reads_genid_bind fun _ => reads_isAt_bind ?_
  refine reads_bind_last ((reads_bracketed ih hw.1 hw.2 hn).mono (fun _ _ => trivial)
    fun _ h => h) (fun as has => reads_newSiteFrom_bind fun _ => reads_pure ?_)
  rw [bareExpr, bareExpr, bareExprs_eq_map, bareExprs_eq_map, has]

lemma exprReads_dim {dimension : Int} : ExprReads texts (.dim site dimension name) := by
  intro hw n _
  rw [exprWritable] at hw
  rw [exprWords]
  refine reads_exprFrom_primary (by decide) (by decide) ?_
  unfold primary
  refine reads_peekKind_bind ?_
  unfold arrayDim dimensionNumber
  refine reads_expect_bind fun _ _ => ?_
  have hnumber : Reads dimensionNumber [(.intLiteral, texts.plain (.int dimension))]
      (fun _ => True) (fun k => k = dimension) := by
    unfold dimensionNumber
    refine reads_isAt_bind (reads_read_bind fun _ => reads_expect_bind fun token htoken => ?_)
    have hvalue : token.value = texts.plain (.int dimension) := congrArg Prod.snd htoken
    rw [hvalue, decodes_int hw]
    exact reads_pure rfl
  refine reads_bind hnumber ?_ (fun _ _ => trivial)
  rintro _ rfl
  refine reads_genid_bind fun _ => reads_newSite_bind fun _ => reads_pure ?_
  rw [bareExpr, bareExpr]

lemma exprReads_new {ty : Ty} : ExprReads texts (.new site ty) := by
  intro hw n hn
  rw [exprWritable] at hw
  rw [exprLevels] at hn
  rw [exprWords]
  refine reads_exprFrom_primary (by decide) (by decide) ?_
  unfold primary
  refine reads_peekKind_bind ?_
  unfold newRef
  refine reads_expect_bind fun _ _ => ?_
  refine reads_bind_last ((reads_deeper_ty hw hn).mono ?_ fun _ h => h)
    (fun t ht => reads_newSiteFrom_bind fun _ => reads_pure ?_)
  · rintro _ rfl
    exact ⟨by decide, by decide⟩
  · rw [bareExpr, bareExpr, ht]

lemma exprReads_forLoop {counter : String} {first last : Expr} {down : Bool}
    (hf : ExprReads texts first) (hl : ExprReads texts last) (hb : ExprReads texts body) :
    ExprReads texts (.forLoop site counter first down last body) := by
  intro hw n hn
  rw [exprWritable] at hw
  rw [exprLevels] at hn
  rw [exprWords]
  refine reads_exprFrom_primary (by decide) (by decide) ?_
  unfold primary
  refine reads_peekKind_bind ?_
  unfold forLoop wholeExpr
  refine reads_expect_bind fun _ _ => reads_genid_bind fun _ => reads_expect_bind fun _ _ => ?_
  refine reads_bind (reads_deeper_exprFrom hf hw.1 (by omega)) (fun e₁ h₁ => ?_) (fun _ _ => ?_)
  · have hdirection : Reads (expectOneOf [.kwTo, .kwDownto] "'to' or 'downto'")
        [terminal (if down then .kwDownto else .kwTo)] (fun _ => True)
        (fun token => word token = terminal (if down then .kwDownto else .kwTo)) :=
      reads_tokenWhere (by cases down <;> rfl)
    refine reads_bind hdirection (fun direction hkind => ?_) (fun _ _ => trivial)
    refine reads_bind (reads_deeper_exprFrom hl hw.2.1 (by omega)) (fun e₂ h₂ => ?_)
      (fun _ _ => (by decide : endsExpr (some .kwDo)))
    refine reads_expect_bind fun _ _ => ?_
    refine reads_bind (reads_deeper_exprFrom hb hw.2.2 (by omega)) (fun e₃ h₃ => ?_)
      (fun _ _ => (by decide : endsExpr (some .kwDone)))
    refine reads_expect_bind fun _ _ => reads_newSiteFrom_bind fun _ => reads_pure ?_
    have hdown : (direction.kind == .kwDownto) = down := by
      have hfst : direction.kind = if down then .kwDownto else .kwTo := congrArg Prod.fst hkind
      rw [hfst]
      cases down <;> rfl
    rw [bareExpr, bareExpr, h₁, h₂, h₃, hdown]
  · cases down
    · exact (by decide : endsExpr (some .kwTo))
    · exact (by decide : endsExpr (some .kwDownto))

lemma exprReads_whileLoop (hc : ExprReads texts condition) (hb : ExprReads texts body) :
    ExprReads texts (.whileLoop site condition body) := by
  intro hw n hn
  rw [exprWritable] at hw
  rw [exprLevels] at hn
  rw [exprWords]
  refine reads_exprFrom_primary (by decide) (by decide) ?_
  unfold primary
  refine reads_peekKind_bind ?_
  unfold whileLoop wholeExpr
  refine reads_expect_bind fun _ _ => ?_
  refine reads_bind (reads_deeper_exprFrom hc hw.1 (by omega)) (fun e₁ h₁ => ?_)
    (fun _ _ => (by decide : endsExpr (some .kwDo)))
  refine reads_expect_bind fun _ _ => ?_
  refine reads_bind (reads_deeper_exprFrom hb hw.2 (by omega)) (fun e₂ h₂ => ?_)
    (fun _ _ => (by decide : endsExpr (some .kwDone)))
  refine reads_expect_bind fun _ _ => reads_newSiteFrom_bind fun _ => reads_pure ?_
  rw [bareExpr, bareExpr, h₁, h₂]

lemma exprReads_ifThen {positive : Expr} (hc : ExprReads texts condition)
    (hp : ExprReads texts positive) : ExprReads texts (.ifThen site condition positive) := by
  intro hw n hn
  rw [exprWritable] at hw
  rw [exprLevels] at hn
  rw [exprWords]
  refine reads_exprFrom_primary (by decide) (by decide) ?_
  unfold primary
  refine reads_peekKind_bind ?_
  unfold conditional wholeExpr
  refine reads_expect_bind fun _ _ => ?_
  refine reads_bind (reads_deeper_exprFrom hc hw.1 (by omega)) (fun e₁ h₁ => ?_)
    (fun _ _ => (by decide : endsExpr (some .kwThen)))
  refine reads_expect_bind fun _ _ => ?_
  refine reads_bind_last ((reads_deeper_exprFrom hp hw.2 (by omega)).mono ?_ fun _ h => h)
    (fun e₂ h₂ => reads_isAt_other_bind ?_ (reads_newSiteFrom_bind fun _ => reads_pure ?_))
  · rintro _ rfl
    decide
  · rintro _ rfl
    decide
  · rw [bareExpr, bareExpr, h₁, h₂]

lemma exprReads_ifElse {positive negative : Expr} (hc : ExprReads texts condition)
    (hp : ExprReads texts positive) (hn' : ExprReads texts negative) :
    ExprReads texts (.ifElse site condition positive negative) := by
  intro hw n hn
  rw [exprWritable] at hw
  rw [exprLevels] at hn
  rw [exprWords]
  refine reads_exprFrom_primary (by decide) (by decide) ?_
  unfold primary
  refine reads_peekKind_bind ?_
  unfold conditional wholeExpr
  refine reads_expect_bind fun _ _ => ?_
  refine reads_bind (reads_deeper_exprFrom hc hw.1 (by omega)) (fun e₁ h₁ => ?_)
    (fun _ _ => (by decide : endsExpr (some .kwThen)))
  refine reads_expect_bind fun _ _ => ?_
  refine reads_bind (reads_deeper_exprFrom hp hw.2.1 (by omega)) (fun e₂ h₂ => ?_)
    (fun _ _ => (by decide : endsExpr (some .kwElse)))
  refine reads_isAt_bind (reads_expect_bind fun _ _ => ?_)
  refine reads_bind_last ((reads_deeper_exprFrom hn' hw.2.2 (by omega)).mono ?_ fun _ h => h)
    (fun e₃ h₃ => reads_newSiteFrom_bind fun _ => reads_pure ?_)
  · rintro _ rfl
    decide
  · rw [bareExpr, bareExpr, h₁, h₂, h₃]

lemma reads_clause {c : Clause} (hb : ExprReads texts c.body)
    (hw : patternWritable texts c.pattern ∧ exprWritable texts c.body)
    (hp : patternLevels c.pattern + 1 ≤ n)
    (hn : wrapLevels (exprIsAtom c.body) (exprLevels c.body) + 1 ≤ n) :
    Reads (clause (deeper n)) (clauseWords texts c) endsExpr
      (fun c' => bareClause c' = bareClause c) := by
  unfold clause clauseWords wholeExpr
  refine reads_bind (reads_deeper_pattern hw.1 hp) (fun p hpattern => ?_) (fun _ _ => rfl)
  refine reads_expect_bind fun _ _ => ?_
  refine reads_bind_last (reads_deeper_exprFrom hb hw.2 hn) (fun e he => ?_)
  refine reads_newSite_bind fun _ => reads_pure ?_
  rw [bareClause, bareClause]
  exact congr (congrArg (Clause.mk default) hpattern) he

lemma exprReads_matchWith {scrutinee : Expr} {clauses : List Clause}
    (hs : ExprReads texts scrutinee) (ih : ∀ c ∈ clauses, ExprReads texts c.body) :
    ExprReads texts (.matchWith site scrutinee clauses) := by
  intro hw n hn
  rw [exprWritable, clauseListWritable_iff] at hw
  rw [exprLevels] at hn
  rw [exprWords, clauseListWords_eq_map]
  refine reads_exprFrom_primary (by decide) (by decide) ?_
  unfold primary
  refine reads_peekKind_bind ?_
  unfold matchWith
  refine reads_expect_bind fun _ _ => ?_
  unfold wholeExpr
  refine reads_bind (reads_deeper_exprFrom hs hw.1 (by omega)) (fun e he => ?_)
    (fun _ _ => (by decide : endsExpr (some .kwWith)))
  refine reads_expect_bind fun _ _ => ?_
  have hclauses : Reads (separated .pipe (clause (deeper n)))
      (separatedWords (terminal .pipe) (clauses.map (clauseWords texts)))
      (fun k => k = some .kwEnd) (fun cs => cs.map bareClause = clauses.map bareClause) := by
    refine reads_separated endsExpr clauses hw.2.1 (fun c hc => ?_) (by decide) ?_
    · have hlevels := clauseListLevels_le.mp (Nat.le_refl _) c hc
      exact reads_clause (ih c hc) (hw.2.2 c hc) (by omega) (by omega)
    · rintro _ rfl
      decide
  refine reads_bind hclauses (fun cs hcs => ?_) (fun _ _ => rfl)
  refine reads_expect_bind fun _ _ => reads_newSiteFrom_bind fun _ => reads_pure ?_
  rw [bareExpr, bareExpr, he, bareClauses_eq_map, bareClauses_eq_map, hcs]

/-- What follows a definition extends neither its body nor its type. -/
def endsDef (k : Option TokenKind) : Prop := endsExpr k ∧ endsType k ∧ k ≠ some .colon

instance (k : Option TokenKind) : Decidable (endsType k) :=
  inferInstanceAs (Decidable (_ ∧ _))

instance (k : Option TokenKind) : Decidable (endsDef k) :=
  inferInstanceAs (Decidable (_ ∧ _))

/-- A definition is read back, up to sites, at every level that has room for it. -/
def DefReads (texts : LiteralTexts) (d : Def) : Prop :=
  defWritable texts d → ∀ n, defLevels d ≤ n →
    Reads (letDef (deeper n)) (defWords texts d) endsDef (fun d' => bareDef d' = bareDef d)

lemma reads_param {p : Param} (hw : annotationWritable p.ty) (hn : annotationLevels p.ty ≤ n) :
    Reads (param (deeper n)) (paramWords p) (fun _ => True)
      (fun p' => bareParam p' = bareParam p) := by
  obtain ⟨site, name, ty⟩ := p
  unfold param paramWords
  cases ty with
  | none =>
    refine reads_isAt_bind (reads_genid_bind fun _ => ?_)
    exact reads_newSite_bind fun _ => reads_pure rfl
  | some ty =>
    refine reads_isAt_other_bind (fun _ _ => by simp [firstKind]) ?_
    refine reads_bind (reads_label (reads_expect .lParen _)) (fun start _ => ?_)
      (fun _ _ => trivial)
    refine reads_genid_bind fun _ => reads_expect_bind fun _ _ => ?_
    refine reads_bind (reads_deeper_ty (hw ty rfl) hn) ?_
      (fun _ _ => (by decide : endsType (some .rParen)))
    rintro _ rfl
    refine reads_expect_bind fun _ _ => reads_newSite_bind fun _ => reads_pure rfl

lemma reads_params {params : List Param} (hw : ∀ p ∈ params, annotationWritable p.ty)
    (hn : ∀ p ∈ params, annotationLevels p.ty ≤ n) :
    Reads (many startsParam (param (deeper n))) (params.flatMap paramWords)
      (fun k => k.any startsParam = false)
      (fun ps => ps.map bareParam = params.map bareParam) := by
  refine reads_many (fun _ => True) params (fun p hp => ?_) (fun p _ => ?_)
    (fun k hk => ⟨trivial, hk⟩)
  · exact reads_param (hw p hp) (hn p hp)
  · obtain ⟨site, name, ty⟩ := p
    cases ty <;> exact ⟨_, _, rfl, rfl, trivial⟩

/-- After the parameters comes a colon or the sign of equality. -/
lemma annotationWords_first (ty : Option Ty) (ws : List Word) (k : Option TokenKind) :
    firstKind (annotationWords ty ++ terminal .equals :: ws) k = some .colon ∨
      firstKind (annotationWords ty ++ terminal .equals :: ws) k = some .equals := by
  cases ty with
  | none => exact Or.inr rfl
  | some ty => exact Or.inl rfl

lemma reads_functionDef (params : List Param) (hb : ExprReads texts body)
    (hparams : ∀ p ∈ params, annotationWritable p.ty) (hty : annotationWritable ty)
    (hbody : exprWritable texts body) (hlparams : ∀ p ∈ params, annotationLevels p.ty ≤ n)
    (hlty : annotationLevels ty ≤ n)
    (hlbody : wrapLevels (exprIsAtom body) (exprLevels body) + 1 ≤ n) :
    Reads (functionDef (deeper n))
      ((.genid, name) :: (params.flatMap paramWords ++ (annotationWords ty ++
        terminal .equals :: wrap (exprIsAtom body) (exprWords texts body)))) endsDef
      (fun d => bareDef d = match params with
        | [] => .constant default name ty (bareExpr body)
        | params => .function default name (params.map bareParam) ty (bareExpr body)) := by
  unfold functionDef wholeExpr
  refine reads_bind (reads_label (reads_genid name)) ?_ (fun _ _ => trivial)
  rintro ⟨_, start⟩ rfl
  refine reads_bind (reads_params hparams hlparams) (fun ps hps => ?_) (fun k _ => ?_)
  · refine reads_bind (reads_annotation_words hty hlty) ?_
      (fun _ _ => (by decide : endsType (some .equals) ∧ some TokenKind.equals ≠ some .colon))
    rintro _ rfl
    refine reads_expect_bind fun _ _ => ?_
    refine reads_bind_last ((reads_deeper_exprFrom hb hbody hlbody).mono (fun _ hk => hk.1)
      fun _ h => h) (fun e he => reads_newSite_bind fun _ => ?_)
    cases ps with
    | nil =>
      have hnil : params = [] := List.map_eq_nil_iff.mp hps.symm
      subst hnil
      exact reads_pure (by rw [bareDef, he])
    | cons p ps =>
      cases params with
      | nil => simp at hps
      | cons q qs => exact reads_pure (by rw [bareDef, he, hps])
  · have hfirst := annotationWords_first ty (wrap (exprIsAtom body) (exprWords texts body)) k
    rcases hfirst with h | h <;>
    · rw [h]
      rfl

lemma defReads_function {params : List Param} {result : Option Ty} (hb : ExprReads texts body) :
    DefReads texts (.function site name params result body) := by
  intro hw n hn
  rw [defWritable] at hw
  obtain ⟨hne, hparams, hresult, hbody⟩ := hw
  rw [defLevels, Nat.max_le, Nat.max_le, foldr_max_le] at hn
  have hlparams : ∀ p ∈ params, annotationLevels p.ty ≤ n := fun p hp =>
    hn.1 _ (List.mem_map_of_mem hp)
  unfold letDef
  rw [defWords]
  refine reads_isAt_other_bind (fun _ _ => by simp [firstKind]) ?_
  refine (reads_functionDef params hb hparams hresult hbody hlparams hn.2.1 hn.2.2).mono
    (fun _ hk => hk) (fun d hd => ?_)
  cases params with
  | nil => exact absurd rfl hne
  | cons p ps => rw [hd, bareDef]

lemma defReads_constant (hb : ExprReads texts body) :
    DefReads texts (.constant site name ty body) := by
  intro hw n hn
  rw [defWritable] at hw
  rw [defLevels, Nat.max_le] at hn
  unfold letDef
  rw [defWords]
  refine reads_isAt_other_bind (fun _ _ => by simp [firstKind]) ?_
  refine (reads_functionDef [] hb (by simp) hw.1 hw.2 (by simp) hn.1 hn.2).mono
    (fun _ hk => hk) (fun d hd => ?_)
  rw [hd, bareDef]

lemma defReads_mutableVar : DefReads texts (.mutableVar site name ty) := by
  intro hw n hn
  rw [defWritable] at hw
  rw [defLevels] at hn
  unfold letDef
  rw [defWords]
  refine reads_isAt_bind ?_
  unfold mutableDef
  refine reads_expect_bind fun _ _ => reads_genid_bind fun _ => ?_
  refine reads_isAt_other_bind (fun k hk => ?_) ?_
  · cases ty with
    | none => exact hk.1.1.2
    | some ty => simp [annotationWords, firstKind]
  · refine reads_bind_last ((reads_annotation_words hw hn).mono (fun _ hk => hk.2) fun _ h => h)
      (fun t ht => reads_newSiteFrom_bind fun _ => reads_pure ?_)
    rw [bareDef, bareDef, ht]

lemma defReads_mutableArray {dims : List Expr} (ih : ∀ e ∈ dims, ExprReads texts e) :
    DefReads texts (.mutableArray site name dims ty) := by
  intro hw n hn
  rw [defWritable, exprListWritable_iff] at hw
  rw [defLevels, Nat.max_le] at hn
  unfold letDef
  rw [defWords]
  refine reads_isAt_bind ?_
  unfold mutableDef
  refine reads_expect_bind fun _ _ => reads_genid_bind fun _ => reads_isAt_bind ?_
  have hdims := reads_bracketed ih hw.1 hw.2.1 hn.1
  have hsplit : terminal .lBracket :: (separatedWords (terminal .comma) (exprListWords texts dims)
      ++ terminal .rBracket :: annotationWords ty) =
      (terminal .lBracket :: (separatedWords (terminal .comma) (exprListWords texts dims) ++
        [terminal .rBracket])) ++ annotationWords ty := by simp
  rw [hsplit]
  refine reads_bind hdims (fun as has => ?_) (fun _ _ => trivial)
  refine reads_bind_last ((reads_annotation_words hw.2.2 hn.2).mono (fun _ hk => hk.2) fun _ h => h)
    (fun t ht => reads_newSiteFrom_bind fun _ => reads_pure ?_)
  rw [bareDef, bareDef, ht, bareExprs_eq_map, bareExprs_eq_map, has]

lemma defWords_first (texts : LiteralTexts) (d : Def) (k : Option TokenKind) :
    firstKind (defWords texts d) k ≠ some .kwRec := by
  cases d <;>
  · rw [defWords]
    simp [firstKind]

/-- What follows a let group is no further definition of it. -/
def endsGroup (k : Option TokenKind) : Prop := endsDef k ∧ k ≠ some .kwAnd

instance (k : Option TokenKind) : Decidable (endsGroup k) :=
  inferInstanceAs (Decidable (_ ∧ _))

lemma reads_letGroup {g : LetGroup} (ih : ∀ d ∈ g.defs, DefReads texts d)
    (hw : groupWritable texts g) (hn : groupLevels g ≤ n) :
    Reads (letGroup (deeper n)) (groupWords texts g) endsGroup
      (fun g' => bareGroup g' = bareGroup g) := by
  obtain ⟨site, isRec, defs⟩ := g
  rw [groupWritable, defListWritable_iff] at hw
  rw [groupLevels, defListLevels_le] at hn
  rw [groupWords, defListWords_eq_map]
  have hdefs : Reads (separated .kwAnd (letDef (deeper n)))
      (separatedWords (terminal .kwAnd) (defs.map (defWords texts))) endsGroup
      (fun ds => ds.map bareDef = defs.map bareDef) := by
    refine reads_separated endsDef defs hw.1 (fun d hd => ?_) (by decide) (fun k hk => hk)
    exact ih d hd (hw.2 d hd) n (hn d hd)
  have hrec : Reads (Parser.optional (expect .kwRec)) (if isRec then [terminal .kwRec] else [])
      (fun k => k ≠ some .kwRec) (fun o => o.isSome = isRec) := by
    cases isRec with
    | false =>
      refine (reads_optional_none (refuses_expect .kwRec)).mono (fun _ hk => hk) ?_
      rintro _ rfl
      rfl
    | true =>
      refine (reads_optional (reads_expect .kwRec _)).mono (fun _ _ => trivial) ?_
      rintro _ ⟨token, rfl, -⟩
      rfl
  unfold letGroup
  refine reads_expect_bind fun _ _ => ?_
  refine reads_bind hrec (fun o ho => ?_) (fun k _ => ?_)
  · refine reads_bind_last hdefs (fun ds hds => reads_newSiteFrom_bind fun _ => reads_pure ?_)
    rw [bareGroup, bareGroup, ho, bareDefs_eq_map, bareDefs_eq_map, hds]
  · obtain ⟨d, ds, rfl⟩ := List.exists_cons_of_ne_nil hw.1
    rw [List.map_cons, separatedWords, firstKind_append]
    exact defWords_first texts d _

lemma exprReads_letIn {group : LetGroup} (ih : ∀ d ∈ group.defs, DefReads texts d)
    (hb : ExprReads texts body) : ExprReads texts (.letIn site group body) := by
  intro hw n hn
  rw [exprWritable] at hw
  rw [exprLevels] at hn
  have hlet : ∃ ws, groupWords texts group = terminal .kwLet :: ws := by
    obtain ⟨groupSite, isRec, defs⟩ := group
    exact ⟨_, by rw [groupWords]⟩
  obtain ⟨ws, hws⟩ := hlet
  have hgroup := reads_letGroup ih hw.1 (n := n) (by omega)
  rw [exprWords]
  rw [hws] at hgroup ⊢
  refine reads_exprFrom_primary (by decide) (by decide) ?_
  unfold primary
  refine reads_peekKind_bind ?_
  unfold letIn wholeExpr
  refine reads_bind hgroup (fun g hg => ?_) (fun _ _ => (by decide : endsGroup (some .kwIn)))
  refine reads_expect_bind fun _ _ => ?_
  refine reads_bind_last ((reads_deeper_exprFrom hb hw.2 (by omega)).mono ?_ fun _ h => h)
    (fun e he => reads_newSite_bind fun _ => reads_pure ?_)
  · rintro _ rfl
    decide
  · rw [bareExpr, bareExpr, hg, he]

lemma tree_reads (texts : LiteralTexts) : TreeCases (ExprReads texts) (DefReads texts) where
  binary _ _ _ _ hl hr := exprReads_binary hl hr
  unary _ _ _ h := exprReads_unary h
  construct _ _ _ ih := exprReads_construct ih
  element _ _ _ ih := exprReads_element ih
  const _ _ := exprReads_const
  constr _ _ := exprReads_atom rfl
  var _ _ := exprReads_atom rfl
  delete _ _ h := exprReads_delete h
  dim _ _ _ := exprReads_dim
  forLoop _ _ _ _ _ _ hf hl hb := exprReads_forLoop hf hl hb
  call _ _ _ ih := exprReads_call ih
  letIn _ _ _ ih hb := exprReads_letIn ih hb
  ifThen _ _ _ hc hp := exprReads_ifThen hc hp
  ifElse _ _ _ _ hc hp hn := exprReads_ifElse hc hp hn
  matchWith _ _ _ hs ih := exprReads_matchWith hs ih
  new _ _ := exprReads_new
  whileLoop _ _ _ hc hb := exprReads_whileLoop hc hb
  function _ _ _ _ _ hb := defReads_function hb
  constant _ _ _ _ hb := defReads_constant hb
  mutableVar _ _ _ := defReads_mutableVar
  mutableArray _ _ _ _ ih := defReads_mutableArray ih

/-- Every let group that can be written is read back as itself, up to sites. -/
theorem groupReads_of_writable {g : LetGroup} (hw : groupWritable texts g)
    (hn : groupLevels g ≤ n) :
    Reads (letGroup (deeper n)) (groupWords texts g) endsGroup
      (fun g' => bareGroup g' = bareGroup g) :=
  reads_letGroup ((tree_reads texts).group g) hw hn

end Llama.Proofs
