import Llama.Proofs.NestingLimit
import Llama.Proofs.TreeText

/-!
# The names of parsed programs

The names in a parsed program are the names among its tokens, and these are names as a whole when
the tokens were cut from a text. The types of such a program can be written, since every array has
a dimension and a user type is never named like a built-in one.
-/

namespace Llama.Proofs

open Llama.Parser Llama.Grammar Lexeme

variable {α : Type} {tokens : Array Token} {d : Deeper}

/-- The names among the tokens are names as a whole, and keywords have their spelling. -/
structure SourceTokens (tokens : Array Token) : Prop where
  names : ∀ token ∈ tokens, token.kind = .genid ∨ token.kind = .conid →
    IsLexeme token.kind token.value.toList
  spellings : ∀ token ∈ tokens, ∀ text, token.kind.text = some text → token.value = text

lemma value_of_lex {source text : String} {tokens : List Token} (h : Token.lex source = .ok tokens)
    {token : Token} (hmem : token ∈ tokens) (htext : token.kind.text = some text) :
    token.value = text := by
  obtain ⟨_, lexeme, hstands⟩ := (shows_scan (scan_of_lex h)).exists_standsAt token hmem
  obtain ⟨cs, hlongest⟩ := hstands.longest
  have hmatch := ofKind?_of_longest? hlongest
  rw [ofKind?_of_text htext] at hmatch
  split at hmatch
  · rw [hstands.value, ← Option.some.inj hmatch, String.ofList_toList]
  · cases hmatch

lemma sourceTokens_of_lex {source : String} {tokens : List Token}
    (h : Token.lex source = .ok tokens) : SourceTokens tokens.toArray where
  names _ hmem hkind := isLexeme_of_lex h (List.mem_toArray.mp hmem) hkind
  spellings _ hmem _ htext := value_of_lex h (List.mem_toArray.mp hmem) htext

lemma makesFrom_name (h : SourceTokens tokens) {kind : TokenKind}
    (hkind : kind = .genid ∨ kind = .conid) (expected : String) :
    MakesFrom tokens (do
      let token ← label (expect kind) expected
      pure (token.value, token.span)) fun read => IsLexeme kind read.1.toList := by
  refine makesFrom_bind (makesFrom_label _ (makesFrom_tokenWhere _ _)) fun token htoken => ?_
  obtain ⟨hmem, hsame⟩ := htoken
  obtain rfl : token.kind = kind := by simpa using hsame
  exact makesFrom_pure (h.names token hmem hkind)

lemma makesFrom_genid (h : SourceTokens tokens) :
    MakesFrom tokens genid fun read => IsLexeme .genid read.1.toList :=
  makesFrom_name h (.inl rfl) _

lemma makesFrom_conid (h : SourceTokens tokens) :
    MakesFrom tokens conid fun read => IsLexeme .conid read.1.toList :=
  makesFrom_name h (.inr rfl) _

lemma makesFrom_typeName (h : SourceTokens tokens) :
    MakesFrom tokens typeName fun read => IsPlain read.1.toList := by
  refine makesFrom_bind (makesFrom_tokenWhere _ _) fun token htoken => makesFrom_pure ?_
  obtain ⟨hmem, hkinds⟩ := htoken
  have hkeyword : ∀ text, token.kind.text = some text → IsPlain text.toList →
      IsPlain token.value.toList := by
    intro text htext hplain
    rwa [h.spellings token hmem text htext]
  simp only [List.contains_eq_mem, List.mem_cons, List.not_mem_nil, or_false,
    decide_eq_true_eq] at hkinds
  rcases hkinds with hkind | hkind | hkind | hkind | hkind | hkind
  · exact isPlain_name (.inl hkind) (h.names token hmem (.inl hkind))
  · exact hkeyword "int" (by rw [hkind]; rfl) (isPlain_of_check rfl)
  · exact hkeyword "bool" (by rw [hkind]; rfl) (isPlain_of_check rfl)
  · exact hkeyword "char" (by rw [hkind]; rfl) (isPlain_of_check rfl)
  · exact hkeyword "float" (by rw [hkind]; rfl) (isPlain_of_check rfl)
  · exact hkeyword "unit" (by rw [hkind]; rfl) (isPlain_of_check rfl)

/-- All names in what the parser makes from the tokens are names of a source. -/
def Names (tokens : Array Token) (nodes : α → List Node) (p : Parser α) : Prop :=
  MakesFrom tokens p fun a => ∀ n ∈ nodes a, Named n

structure DeeperNames (tokens : Array Token) (d : Deeper) : Prop where
  exprFrom : ∀ rank, Names tokens Expr.nodes (d.exprFrom rank)
  operand : Names tokens Expr.nodes d.operand
  simple : Names tokens Expr.nodes d.simple
  ty : MakesFrom tokens d.ty NamedType
  arrayTy : MakesFrom tokens d.arrayTy NamedType
  pattern : Names tokens Pattern.nodes d.pattern

lemma namedType_of_keyword {kind : TokenKind} {ty : Ty} (h : keywordType? kind = some ty) :
    NamedType ty := by
  unfold keywordType? at h
  split at h <;> cases h <;> exact ⟨trivial, fun _ h => absurd h List.not_mem_nil⟩

lemma namedType_of_name {name : String} (h : IsLexeme .genid name.toList) :
    NamedType (namedType name) := by
  unfold namedType
  cases hfind : Ty.builtin? name with
  | none => exact ⟨hfind, List.forall_mem_singleton.mpr h⟩
  | some ty =>
    have hmem : ty ∈ Ty.builtins := List.mem_of_find?_eq_some hfind
    simp only [Ty.builtins, List.mem_cons, List.not_mem_nil, or_false] at hmem
    rcases hmem with rfl | rfl | rfl | rfl | rfl | rfl <;>
      exact ⟨trivial, fun _ h => absurd h List.not_mem_nil⟩

lemma makesFrom_typeAtom (htokens : SourceTokens tokens) (h : DeeperNames tokens d) :
    MakesFrom tokens (typeAtom d) NamedType := by
  refine makesFrom_skip fun kind => ?_
  split
  · exact makesFrom_bind (makesFrom_genid htokens) fun read hread =>
      makesFrom_pure (namedType_of_name hread)
  · exact makesFrom_between _ _ h.ty
  · exact h.arrayTy
  · split
    next hkeyword => exact makesFrom_skip fun _ => makesFrom_pure (namedType_of_keyword hkeyword)
    next => exact makesFrom_unexpected _
  · exact makesFrom_unexpected _

lemma makesFrom_typeOperand (htokens : SourceTokens tokens) (h : DeeperNames tokens d) :
    MakesFrom tokens (typeOperand d) NamedType := by
  refine makesFrom_bind (makesFrom_typeAtom htokens h) fun ty hty => makesFrom_skip fun refs => ?_
  refine makesFrom_pure ?_
  induction refs generalizing ty with
  | nil => exact hty
  | cons _ refs ih => exact ih (.ref ty) ⟨hty.writable, hty.names⟩

lemma makesFrom_arrowType (htokens : SourceTokens tokens) (h : DeeperNames tokens d) :
    MakesFrom tokens (arrowType d) NamedType := by
  refine makesFrom_bind (makesFrom_typeOperand htokens h) fun source hsource =>
    makesFrom_skip fun _ => makesFrom_ite ?_ (makesFrom_pure hsource)
  refine makesFrom_skip fun _ => makesFrom_bind h.ty fun target htarget => makesFrom_pure ?_
  exact ⟨⟨hsource.writable, htarget.writable⟩,
    List.forall_mem_append.mpr ⟨hsource.names, htarget.names⟩⟩

lemma makesFrom_dimensions : MakesFrom tokens dimensions fun dims => 0 < dims := by
  refine makesFrom_skip fun _ => makesFrom_ite ?_ (makesFrom_pure Nat.one_pos)
  have hany : MakesFrom tokens (expect .times) fun _ => True := fun _ _ _ _ => trivial
  exact makesFrom_bind (makesFrom_between _ _ (makesFrom_separated _ hany)) fun stars hstars =>
    makesFrom_pure (List.length_pos_of_ne_nil hstars.1)

lemma makesFrom_arrayType (htokens : SourceTokens tokens) (h : DeeperNames tokens d) :
    MakesFrom tokens (arrayType d) NamedType := by
  refine makesFrom_skip fun _ => makesFrom_bind makesFrom_dimensions fun dims hdims => ?_
  refine makesFrom_skip fun _ => makesFrom_bind (makesFrom_typeOperand htokens h) ?_
  exact fun element helement => makesFrom_pure ⟨⟨hdims, helement.writable⟩, helement.names⟩

lemma makesFrom_annotated (h : DeeperNames tokens d) :
    MakesFrom tokens (optionalType d) fun ty => ∀ t ∈ ty, NamedType t :=
  makesFrom_optional (makesFrom_skip fun _ => h.ty)

lemma named_root {n : Node} {below : List Node} (hn : Named n) (h : ∀ m ∈ below, Named m) :
    ∀ m ∈ below ++ [n], Named m :=
  List.forall_mem_append.mpr ⟨h, List.forall_mem_singleton.mpr hn⟩

lemma named_leaf {n : Node} (hn : Named n) : ∀ m ∈ [n], Named m := List.forall_mem_singleton.mpr hn

lemma named_patterns {ps : List Pattern} (h : ∀ p ∈ ps, ∀ n ∈ p.nodes, Named n) :
    ∀ n ∈ Pattern.nodesOfList ps, Named n := by
  rw [patternNodes_eq_flatMap]
  exact List.forall_mem_flatMap.mpr h

lemma names_signedConstant (literal : TokenKind) (negative : Bool) :
    Names tokens Pattern.nodes (signedConstant literal negative) := by
  refine makesFrom_skip fun _ => makesFrom_skip fun _ => makesFrom_skip fun _ =>
    makesFrom_skip fun _ => ?_
  split
  · exact makesFrom_skip fun _ => makesFrom_pure (named_leaf trivial)
  · exact makesFrom_failWith _

lemma names_simplePattern (htokens : SourceTokens tokens) (h : DeeperNames tokens d) :
    Names tokens Pattern.nodes (simplePattern d) := by
  have hconstant : Names tokens Pattern.nodes (do
      let read ← constant
      return Pattern.const (← newSite read.2) read.1) :=
    makesFrom_skip fun _ => makesFrom_skip fun _ => makesFrom_pure (named_leaf trivial)
  refine makesFrom_skip fun kind => ?_
  split
  · exact makesFrom_between _ _ h.pattern
  · exact makesFrom_bind (makesFrom_genid htokens) fun _ hname =>
      makesFrom_skip fun _ => makesFrom_pure (named_leaf hname)
  · exact makesFrom_bind (makesFrom_conid htokens) fun _ hname =>
      makesFrom_skip fun _ => makesFrom_pure (named_leaf hname)
  · exact names_signedConstant _ _
  · exact names_signedConstant _ _
  · exact names_signedConstant _ _
  · exact names_signedConstant _ _
  · exact hconstant
  · exact hconstant
  · exact hconstant
  · exact hconstant
  · exact hconstant
  · exact makesFrom_unexpected _

lemma names_pattern (htokens : SourceTokens tokens) (h : DeeperNames tokens d) :
    Names tokens Pattern.nodes (pattern d) := by
  refine makesFrom_skip fun _ => makesFrom_ite ?_ (names_simplePattern htokens h)
  refine makesFrom_bind (makesFrom_conid htokens) fun _ hname => ?_
  refine makesFrom_bind (makesFrom_many _ (names_simplePattern htokens h)) fun args hargs => ?_
  exact makesFrom_skip fun _ => makesFrom_pure (named_root hname (named_patterns hargs))

lemma named_exprs {es : List Expr} (h : ∀ e ∈ es, ∀ n ∈ e.nodes, Named n) :
    ∀ n ∈ Expr.nodesOfList es, Named n := by
  rw [exprNodes_eq_flatMap]
  exact List.forall_mem_flatMap.mpr h

lemma named_append {nodes nodes' : List Node} (h : ∀ n ∈ nodes, Named n)
    (h' : ∀ n ∈ nodes', Named n) : ∀ n ∈ nodes ++ nodes', Named n :=
  List.forall_mem_append.mpr ⟨h, h'⟩

lemma names_wholeExpr (h : DeeperNames tokens d) : Names tokens Expr.nodes (wholeExpr d) :=
  h.exprFrom anyRank

lemma makesFrom_indices (h : DeeperNames tokens d) :
    MakesFrom tokens (between .lBracket .rBracket (exprList d)) fun es =>
      es ≠ [] ∧ ∀ e ∈ es, ∀ n ∈ e.nodes, Named n :=
  makesFrom_between _ _ (makesFrom_separated _ (names_wholeExpr h))

lemma names_variableOrElement (htokens : SourceTokens tokens) (h : DeeperNames tokens d) :
    Names tokens Expr.nodes (variableOrElement d) := by
  refine makesFrom_bind (makesFrom_genid htokens) fun _ hname =>
    makesFrom_skip fun _ => makesFrom_ite ?_ ?_
  · refine makesFrom_bind (makesFrom_indices h) fun indices hindices => makesFrom_skip fun _ => ?_
    exact makesFrom_pure (named_root hname (named_exprs hindices.2))
  · exact makesFrom_skip fun _ => makesFrom_pure (named_leaf hname)

lemma names_simpleExpr (htokens : SourceTokens tokens) (h : DeeperNames tokens d) :
    Names tokens Expr.nodes (simpleExpr d) := by
  refine makesFrom_skip fun kind => ?_
  split
  · exact names_variableOrElement htokens h
  · exact makesFrom_bind (makesFrom_conid htokens) fun _ hname =>
      makesFrom_skip fun _ => makesFrom_pure (named_leaf hname)
  · exact makesFrom_skip fun _ => makesFrom_bind h.simple fun operand hoperand =>
      makesFrom_skip fun _ => makesFrom_pure (named_root trivial hoperand)
  · refine makesFrom_skip fun _ => makesFrom_skip fun _ => makesFrom_ite ?_ ?_
    · exact makesFrom_skip fun _ => makesFrom_skip fun _ => makesFrom_pure (named_leaf trivial)
    · exact makesFrom_bind (names_wholeExpr h) fun inner hinner =>
        makesFrom_skip fun _ => makesFrom_pure hinner
  · refine makesFrom_ite ?_ (makesFrom_unexpected _)
    exact makesFrom_skip fun _ => makesFrom_skip fun _ => makesFrom_pure (named_leaf trivial)
  · exact makesFrom_unexpected _

lemma names_variableOrCall (htokens : SourceTokens tokens) (h : DeeperNames tokens d) :
    Names tokens Expr.nodes (variableOrCall d) := by
  refine makesFrom_bind (makesFrom_genid htokens) fun _ hname => ?_
  refine makesFrom_bind (makesFrom_many _ (names_simpleExpr htokens h)) fun args hargs => ?_
  cases args with
  | nil => exact makesFrom_skip fun _ => makesFrom_pure (named_leaf hname)
  | cons => exact makesFrom_skip fun _ => makesFrom_pure (named_root hname (named_exprs hargs))

lemma names_construction (htokens : SourceTokens tokens) (h : DeeperNames tokens d) :
    Names tokens Expr.nodes (construction d) := by
  refine makesFrom_bind (makesFrom_conid htokens) fun _ hname => ?_
  refine makesFrom_bind (makesFrom_many _ (names_simpleExpr htokens h)) fun args hargs => ?_
  cases args with
  | nil => exact makesFrom_skip fun _ => makesFrom_pure (named_leaf hname)
  | cons => exact makesFrom_skip fun _ => makesFrom_pure (named_root hname (named_exprs hargs))

lemma names_arrayDim (htokens : SourceTokens tokens) : Names tokens Expr.nodes arrayDim :=
  makesFrom_skip fun _ => makesFrom_skip fun _ => makesFrom_bind (makesFrom_genid htokens)
    fun _ hname => makesFrom_skip fun _ => makesFrom_pure (named_leaf hname)

lemma names_newRef (h : DeeperNames tokens d) : Names tokens Expr.nodes (newRef d) :=
  makesFrom_skip fun _ => makesFrom_bind h.ty fun _ hty =>
    makesFrom_skip fun _ => makesFrom_pure (named_leaf hty)

lemma names_forLoop (htokens : SourceTokens tokens) (h : DeeperNames tokens d) :
    Names tokens Expr.nodes (forLoop d) := by
  refine makesFrom_skip fun _ => makesFrom_bind (makesFrom_genid htokens) fun _ hname => ?_
  refine makesFrom_skip fun _ => makesFrom_bind (names_wholeExpr h) fun first hfirst => ?_
  refine makesFrom_skip fun _ => makesFrom_bind (names_wholeExpr h) fun last hlast => ?_
  refine makesFrom_skip fun _ => makesFrom_bind (names_wholeExpr h) fun body hbody => ?_
  refine makesFrom_skip fun _ => makesFrom_skip fun _ => makesFrom_pure ?_
  exact named_root hname (named_append (named_append hfirst hlast) hbody)

lemma names_whileLoop (h : DeeperNames tokens d) : Names tokens Expr.nodes (whileLoop d) := by
  refine makesFrom_skip fun _ => makesFrom_bind (names_wholeExpr h) fun condition hcondition => ?_
  refine makesFrom_skip fun _ => makesFrom_bind (names_wholeExpr h) fun body hbody => ?_
  refine makesFrom_skip fun _ => makesFrom_skip fun _ => makesFrom_pure ?_
  exact named_root trivial (named_append hcondition hbody)

lemma names_conditional (h : DeeperNames tokens d) : Names tokens Expr.nodes (conditional d) := by
  refine makesFrom_skip fun _ => makesFrom_bind (names_wholeExpr h) fun condition hcondition => ?_
  refine makesFrom_skip fun _ => makesFrom_bind (h.exprFrom _) fun positive hpositive => ?_
  refine makesFrom_skip fun _ => makesFrom_ite ?_ ?_
  · refine makesFrom_skip fun _ => makesFrom_bind (h.exprFrom _) fun negative hnegative => ?_
    refine makesFrom_skip fun _ => makesFrom_pure ?_
    exact named_root trivial (named_append (named_append hcondition hpositive) hnegative)
  · refine makesFrom_skip fun _ => makesFrom_pure ?_
    exact named_root trivial (named_append hcondition hpositive)

lemma names_clause (h : DeeperNames tokens d) : Names tokens Clause.nodes (clause d) := by
  refine makesFrom_bind h.pattern fun pattern hpattern => makesFrom_skip fun _ => ?_
  refine makesFrom_bind (names_wholeExpr h) fun body hbody => makesFrom_skip fun _ => ?_
  exact makesFrom_pure (named_root trivial (named_append hpattern hbody))

lemma names_matchWith (h : DeeperNames tokens d) : Names tokens Expr.nodes (matchWith d) := by
  refine makesFrom_skip fun _ => makesFrom_bind (names_wholeExpr h) fun scrutinee hscrutinee => ?_
  refine makesFrom_skip fun _ =>
    makesFrom_bind (makesFrom_separated _ (names_clause h)) fun clauses hclauses => ?_
  refine makesFrom_skip fun _ => makesFrom_skip fun _ => makesFrom_pure ?_
  refine named_root trivial (named_append hscrutinee ?_)
  rw [clauseNodes_eq_flatMap]
  exact List.forall_mem_flatMap.mpr hclauses.2

lemma names_param (htokens : SourceTokens tokens) (h : DeeperNames tokens d) :
    MakesFrom tokens (param d) fun p => Named (.param p) := by
  refine makesFrom_skip fun _ => makesFrom_ite ?_ ?_
  · refine makesFrom_bind (makesFrom_genid htokens) fun _ hname => makesFrom_skip fun _ => ?_
    exact makesFrom_pure ⟨hname, fun _ h => absurd h (Option.not_mem_none _)⟩
  · refine makesFrom_skip fun _ => makesFrom_bind (makesFrom_genid htokens) fun _ hname => ?_
    refine makesFrom_skip fun _ => makesFrom_bind h.ty fun ty hty => ?_
    refine makesFrom_skip fun _ => makesFrom_skip fun _ => makesFrom_pure ⟨hname, ?_⟩
    intro t ht
    cases ht
    exact hty

lemma names_mutableDef (htokens : SourceTokens tokens) (h : DeeperNames tokens d) :
    Names tokens Def.nodes (mutableDef d) := by
  refine makesFrom_skip fun _ => makesFrom_bind (makesFrom_genid htokens) fun _ hname => ?_
  refine makesFrom_skip fun _ => makesFrom_ite ?_ ?_
  · refine makesFrom_bind (makesFrom_indices h) fun dims hdims => ?_
    refine makesFrom_bind (makesFrom_annotated h) fun ty hty => makesFrom_skip fun _ => ?_
    exact makesFrom_pure (named_root ⟨hname, hty⟩ (named_exprs hdims.2))
  · refine makesFrom_bind (makesFrom_annotated h) fun ty hty => makesFrom_skip fun _ => ?_
    exact makesFrom_pure (named_leaf ⟨hname, hty⟩)

lemma names_functionDef (htokens : SourceTokens tokens) (h : DeeperNames tokens d) :
    Names tokens Def.nodes (functionDef d) := by
  refine makesFrom_bind (makesFrom_label _ (makesFrom_genid htokens)) fun _ hname => ?_
  refine makesFrom_bind (makesFrom_many _ (names_param htokens h)) fun params hparams => ?_
  refine makesFrom_bind (makesFrom_annotated h) fun ty hty => makesFrom_skip fun _ => ?_
  refine makesFrom_bind (names_wholeExpr h) fun body hbody => makesFrom_skip fun _ => ?_
  cases params with
  | nil => exact makesFrom_pure (named_root ⟨hname, hty⟩ hbody)
  | cons =>
    exact makesFrom_pure (named_root ⟨hname, hty⟩
      (named_append (List.forall_mem_map.mpr hparams) hbody))

lemma names_letGroup (htokens : SourceTokens tokens) (h : DeeperNames tokens d) :
    Names tokens LetGroup.nodes (letGroup d) := by
  have hdef : Names tokens Def.nodes (letDef d) :=
    makesFrom_skip fun _ => makesFrom_ite (names_mutableDef htokens h) (names_functionDef htokens h)
  refine makesFrom_skip fun _ => makesFrom_skip fun _ => ?_
  refine makesFrom_bind (makesFrom_separated _ hdef) fun defs hdefs => makesFrom_skip fun _ => ?_
  refine makesFrom_pure (named_root trivial ?_)
  rw [defNodes_eq_flatMap]
  exact List.forall_mem_flatMap.mpr hdefs.2

lemma names_letIn (htokens : SourceTokens tokens) (h : DeeperNames tokens d) :
    Names tokens Expr.nodes (letIn d) := by
  refine makesFrom_bind (names_letGroup htokens h) fun group hgroup => makesFrom_skip fun _ => ?_
  refine makesFrom_bind (names_wholeExpr h) fun body hbody => makesFrom_skip fun _ => ?_
  exact makesFrom_pure (named_root trivial (named_append hgroup hbody))

lemma names_primary (htokens : SourceTokens tokens) (h : DeeperNames tokens d) :
    Names tokens Expr.nodes (primary d) := by
  refine makesFrom_skip fun kind => ?_
  split
  · exact makesFrom_skip fun _ =>
      makesFrom_ite (names_simpleExpr htokens h) (names_variableOrCall htokens h)
  · exact names_construction htokens h
  · exact names_arrayDim htokens
  · exact names_newRef h
  · exact makesFrom_between _ _ (names_wholeExpr h)
  · exact names_forLoop htokens h
  · exact names_whileLoop h
  · exact names_conditional h
  · exact names_matchWith h
  · exact names_letIn htokens h
  · exact names_simpleExpr htokens h

lemma makesFrom_leastInteger? (sign : Span) :
    MakesFrom tokens (leastInteger? sign) fun o => ∀ e ∈ o, ∀ n ∈ e.nodes, Named n := by
  refine makesFrom_skip fun next => ?_
  cases next with
  | none => exact makesFrom_pure_none
  | some token =>
    refine makesFrom_ite ?_ makesFrom_pure_none
    split
    · refine makesFrom_skip fun _ => makesFrom_skip fun _ => makesFrom_pure ?_
      intro e he
      cases he
      exact named_leaf trivial
    · exact makesFrom_pure_none

lemma names_prefixed (h : DeeperNames tokens d) (op : UnaryOp) :
    Names tokens Expr.nodes (prefixed d op) := by
  refine makesFrom_skip fun start => ?_
  refine makesFrom_ite (makesFrom_bind (makesFrom_leastInteger? start) ?_)
    (makesFrom_bind (makesFrom_pure_none (P := fun e => ∀ n ∈ e.nodes, Named n)) ?_)
  all_goals
    intro least hleast
    cases least with
    | some e => exact makesFrom_pure (hleast e rfl)
    | none =>
      exact makesFrom_bind h.operand fun operand hoperand =>
        makesFrom_skip fun _ => makesFrom_pure (named_root trivial hoperand)

lemma names_unary (htokens : SourceTokens tokens) (h : DeeperNames tokens d) :
    Names tokens Expr.nodes (unary d) := by
  refine makesFrom_skip fun kind => ?_
  split
  · exact names_primary htokens h
  · exact makesFrom_skip fun _ => makesFrom_skip fun _ => makesFrom_bind h.operand
      fun operand hoperand => makesFrom_skip fun _ => makesFrom_pure (named_root trivial hoperand)
  · split
    · exact makesFrom_skip fun _ => names_prefixed h _
    · exact names_primary htokens h

lemma names_climbUpTo (h : DeeperNames tokens d) (rank count : Nat) {left : Expr}
    (hleft : ∀ n ∈ left.nodes, Named n) (chained : Option Nat) :
    Names tokens Expr.nodes (climbUpTo d rank count left chained) := by
  induction count generalizing left chained with
  | zero => exact makesFrom_pure hleft
  | succ count ih =>
    refine makesFrom_skip fun kind => ?_
    split
    next => exact makesFrom_pure hleft
    next op _ =>
      refine makesFrom_ite (makesFrom_pure hleft)
        (makesFrom_ite (makesFrom_skip fun _ => makesFrom_failWith _) ?_)
      refine makesFrom_skip fun _ => makesFrom_bind (h.exprFrom _) fun right hright => ?_
      refine makesFrom_skip fun site => ih ?_ _
      have hself : Named (.expr (.binary site op left right)) := trivial
      exact named_root hself (named_append hleft hright)

lemma names_exprFrom (htokens : SourceTokens tokens) (h : DeeperNames tokens d) (rank : Nat) :
    Names tokens Expr.nodes (exprFrom d rank) :=
  makesFrom_bind (names_unary htokens h) fun _ hleft =>
    makesFrom_skip fun _ => names_climbUpTo h rank _ hleft _

lemma deeper_names (htokens : SourceTokens tokens) (levels : Nat) :
    DeeperNames tokens (deeper levels) := by
  induction levels with
  | zero =>
    exact ⟨fun _ => makesFrom_tooDeep, makesFrom_tooDeep, makesFrom_tooDeep, makesFrom_tooDeep,
      makesFrom_tooDeep, makesFrom_tooDeep⟩
  | succ levels ih =>
    rw [deeper_succ]
    exact ⟨names_exprFrom htokens ih, names_unary htokens ih, names_simpleExpr htokens ih,
      makesFrom_arrowType htokens ih, makesFrom_arrayType htokens ih, names_pattern htokens ih⟩

lemma names_constructorDef (htokens : SourceTokens tokens) (h : DeeperNames tokens d) :
    MakesFrom tokens (constructorDef d) fun c => Named (.constructor c) := by
  refine makesFrom_bind (makesFrom_conid htokens) fun _ hname =>
    makesFrom_skip fun _ => makesFrom_ite ?_ ?_
  · refine makesFrom_skip fun _ => makesFrom_bind h.ty fun first hfirst => ?_
    refine makesFrom_bind (makesFrom_many _ h.ty) fun rest hrest => makesFrom_skip fun _ => ?_
    exact makesFrom_pure ⟨hname, List.forall_mem_cons.mpr ⟨hfirst, hrest⟩⟩
  · exact makesFrom_skip fun _ => makesFrom_pure ⟨hname, fun _ h => absurd h List.not_mem_nil⟩

lemma names_typeGroup (htokens : SourceTokens tokens) (h : DeeperNames tokens d) :
    Names tokens TypeGroup.nodes (typeGroup d) := by
  have hdef : Names tokens TypeDef.nodes (typeDef d) := by
    refine makesFrom_bind (makesFrom_typeName htokens) fun _ hname => makesFrom_skip fun _ => ?_
    refine makesFrom_bind (makesFrom_separated _ (names_constructorDef htokens h)) fun cs hcs => ?_
    refine makesFrom_skip fun _ => makesFrom_pure ?_
    exact named_root hname (List.forall_mem_map.mpr hcs.2)
  refine makesFrom_skip fun _ => makesFrom_bind (makesFrom_separated _ hdef) fun defs hdefs => ?_
  refine makesFrom_skip fun _ => makesFrom_skip fun _ => makesFrom_pure ?_
  exact named_root trivial (List.forall_mem_flatMap.mpr hdefs.2)

lemma names_definition (htokens : SourceTokens tokens) (h : DeeperNames tokens d) :
    Names tokens Definition.nodes (definition d) := by
  refine makesFrom_skip fun kind => ?_
  split
  · exact makesFrom_bind (names_typeGroup htokens h) fun _ hgroup => makesFrom_pure hgroup
  · exact makesFrom_bind (names_letGroup htokens h) fun _ hgroup => makesFrom_pure hgroup
  · exact makesFrom_skip fun _ => makesFrom_failWith _

/-- All names in a program that was parsed from a text are names of a source. -/
lemma named_of_parse {source : String} {tokens : List Token} {program : Program}
    (hlex : Token.lex source = .ok tokens) (hparse : (parse tokens).program = some program) :
    ∀ n ∈ program.nodes, Named n := by
  obtain ⟨attempts, s, hrounds, -, rfl⟩ := rounds_of_program hparse
  have htokens := sourceTokens_of_lex hlex
  exact List.forall_mem_flatMap.mpr (hrounds.forall_definitions
    (names_definition htokens (deeper_names htokens maxNesting)))

end Llama.Proofs
