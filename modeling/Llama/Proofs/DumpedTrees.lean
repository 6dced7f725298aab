import Llama.Proofs.PartReading
import Llama.Proofs.TreeText

/-!
# Trees from their nested lists

The nested list of a tree tells the tree, up to the sites of its nodes. What the list is can be
seen from its first word, as a token, and from the number of its items; the items then tell the
parts.
-/

namespace Llama.Proofs

open Printer Lexeme

variable {ty ty' : Ty} {kind : TokenKind}

/-- Two types that are written alike are the same, since the text is read back in one way. -/
lemma type_of_text (h : NamedType ty) (h' : NamedType ty') (heq : ty.text = ty'.text) :
    ty = ty' := by
  have hend : endsName none := fun _ h => absurd h (Option.not_mem_none _)
  obtain ⟨tokens, hlex, hwords⟩ := (cuts_text h.writable h.names).1.lex hend
  obtain ⟨tokens', hlex', hwords'⟩ := (cuts_text h'.writable h'.names).1.lex hend
  obtain rfl : tokens' = tokens := by
    rw [heq, hlex'] at hlex
    exact Except.ok.inj hlex
  -- Both are read from the same tokens, with levels enough for either.
  have hread : ∀ {t : Ty}, NamedType t → tokens'.map word = printedWords t →
      printedNesting t ≤ max (printedNesting ty) (printedNesting ty') →
      ((Grammar.arrowType (Grammar.deeper (max (printedNesting ty) (printedNesting ty'))))
        tokens'.toArray .initial).1 = .ok t := by
    intro t ht hwords hn
    have hahead : ahead tokens'.toArray .initial = printedWords t ++ [] := by
      rw [List.append_nil, ← hwords]
      rfl
    obtain ⟨t', s, hrun, rfl, -⟩ := (textReads_of_writable ht.writable).1 _
      (Nat.le_succ_of_le hn) _ _ [] hahead (by simp [endsType, firstKind])
    rw [hrun]
  have hty := hread h hwords (Nat.le_max_left _ _)
  rw [hread h' hwords' (Nat.le_max_right _ _)] at hty
  exact (Except.ok.inj hty).symm

lemma type_of_items (h : NamedType ty) (h' : NamedType ty') (heq : tyItems ty = tyItems ty') :
    ty = ty' := by
  refine type_of_text h h' ?_
  have htext := (writesAll_type h).2
  rw [heq, (writesAll_type h').2, List.flatMap_singleton, List.flatMap_singleton] at htext
  exact String.toList_inj.mp (List.cons.inj htext).2.symm

lemma type_of_sexp (h : NamedType ty) (h' : NamedType ty') (heq : typeSexp ty = typeSexp ty') :
    ty = ty' := by
  unfold typeSexp at heq
  split at heq <;> split at heq
  · exact type_of_items h h' (Sexp.list.inj heq)
  · cases heq
  · cases heq
  · exact type_of_text h h' (Sexp.word.inj heq)

/-- What tells the items of a list apart tells the list. -/
lemma map_of_map {α β γ : Type} {f : α → β} {g : α → γ} {l l' : List α}
    (h : ∀ a ∈ l, ∀ a' ∈ l', f a = f a' → g a = g a') (heq : l.map f = l'.map f) :
    l.map g = l'.map g := by
  induction l generalizing l' with
  | nil => rw [List.map_eq_nil_iff.mp heq.symm]
  | cons a l ih =>
    cases l' with
    | nil => cases heq
    | cons a' l' =>
      rw [List.map_cons, List.map_cons, List.cons.injEq] at heq
      have hfirst := h a List.mem_cons_self a' List.mem_cons_self heq.1
      have hrest := ih (fun b hb b' hb' =>
        h b (List.mem_cons_of_mem _ hb) b' (List.mem_cons_of_mem _ hb')) heq.2
      rw [List.map_cons, List.map_cons, hfirst, hrest]

lemma types_of_sexps {tys tys' : List Ty} (h : ∀ ty ∈ tys, NamedType ty)
    (h' : ∀ ty ∈ tys', NamedType ty) (heq : tys.map typeSexp = tys'.map typeSexp) :
    tys = tys' := by
  have hsame := map_of_map (g := id)
    (fun ty hty ty' hty' => type_of_sexp (h ty hty) (h' ty' hty')) heq
  rwa [List.map_id, List.map_id] at hsame

lemma annotation_of_sexps {ty ty' : Option Ty} (h : ∀ t ∈ ty, NamedType t)
    (h' : ∀ t ∈ ty', NamedType t) (heq : annotationSexps ty = annotationSexps ty') : ty = ty' := by
  cases ty with
  | none =>
    cases ty' with
    | none => rfl
    | some ty' => cases heq
  | some ty =>
    cases ty' with
    | none => cases heq
    | some ty' =>
      have hty : typeSexp ty = typeSexp ty' := by simpa [annotationSexps] using heq
      rw [type_of_sexp (h ty rfl) (h' ty' rfl) hty]

/-- What an expression or a pattern is. -/
inductive Form where
  | binary | unary | construct | element | const | constr | var | delete | dim | forLoop | call
  | letIn | ifThen | ifElse | matchWith | new | whileLoop

def exprForm : Expr → Form
  | .binary .. => .binary
  | .unary .. => .unary
  | .construct .. => .construct
  | .element .. => .element
  | .const .. => .const
  | .constr .. => .constr
  | .var .. => .var
  | .delete .. => .delete
  | .dim .. => .dim
  | .forLoop .. => .forLoop
  | .call .. => .call
  | .letIn .. => .letIn
  | .ifThen .. => .ifThen
  | .ifElse .. => .ifElse
  | .matchWith .. => .matchWith
  | .new .. => .new
  | .whileLoop .. => .whileLoop

def patternForm : Pattern → Form
  | .const .. => .const
  | .var .. => .var
  | .constr _ _ [] => .constr
  | .constr .. => .construct

/-- The token that a word starts with. -/
def kindOf (text : String) : Option TokenKind := (longest? text.toList).map Prod.fst

/-- The form of a list with a first word and a number of further items. -/
def listForm (head : Option TokenKind) (count : Nat) : Form :=
  match head with
  | some .genid => .call
  | some .conid => .construct
  | some .kwDelete => .delete
  | some .kwDim => .dim
  | some .kwFor => .forLoop
  | some .kwLet => .letIn
  | some .kwIf => if count = 2 then .ifThen else .ifElse
  | some .kwMatch => .matchWith
  | some .kwNew => .new
  | some .kwWhile => .whileLoop
  | _ => if count = 1 then .unary else .binary

def wordForm : Option TokenKind → Form
  | some .genid => .var
  | some .conid => .constr
  | _ => .const

/-- The form of what a nested list is written for. -/
def formOf : Sexp → Form
  | .word text => wordForm (kindOf text)
  | .list (.word head :: rest) => listForm (kindOf head) rest.length
  | .list (.bracket _ :: _) => .element
  | _ => .const

lemma kindOf_name {name : String} (h : IsLexeme kind name.toList) : kindOf name = some kind := by
  rw [kindOf, h]
  rfl

lemma kindOf_keyword (kind : TokenKind) {text : String} (h : kind.text = some text) :
    kindOf text = some kind := kindOf_name (isLexeme_spelling h)

lemma formOf_list {head : String} (h : kindOf head = some kind) (rest : List Sexp) :
    formOf (.list (.word head :: rest)) = listForm (some kind) rest.length := by
  rw [formOf, h]

lemma formOf_word {text : String} (h : kindOf text = some kind) :
    formOf (.word text) = wordForm (some kind) := by
  rw [formOf, h]

lemma formOf_const {value : Const} (h : ∀ x, value ≠ .float x) :
    formOf (constSexp value) = .const := by
  cases value with
  | bool value =>
    cases value with
    | false => exact formOf_word (kindOf_keyword .kwFalse rfl)
    | true => exact formOf_word (kindOf_keyword .kwTrue rfl)
  | float x => exact absurd rfl (h x)
  | _ => rfl

lemma kindOf_binaryOp (op : BinaryOp) : kindOf op.symbol = some (binaryKind op) := by
  have hspelling : (binaryKind op).text = some op.symbol := by cases op <;> rfl
  exact kindOf_keyword _ hspelling

lemma kindOf_unaryOp (op : UnaryOp) : kindOf op.symbol = some (unaryKind op) := by
  have hspelling : (unaryKind op).text = some op.symbol := by cases op <;> rfl
  exact kindOf_keyword _ hspelling

lemma binaryOp_of_symbol {op op' : BinaryOp} (h : op.symbol = op'.symbol) : op = op' := by
  have hkind := kindOf_binaryOp op
  rw [h, kindOf_binaryOp, Option.some.injEq] at hkind
  have hop := ofToken?_binaryKind op
  rw [← hkind, ofToken?_binaryKind, Option.some.injEq] at hop
  exact hop.symm

lemma unaryOp_of_symbol {op op' : UnaryOp} (h : op.symbol = op'.symbol) : op = op' := by
  revert h
  cases op <;> cases op' <;> decide

/-- The nested list of an expression tells its form. -/
lemma formOf_exprSexp {e : Expr} (h : Readable e.nodes) : formOf (exprSexp e) = exprForm e := by
  have hself : Named (.expr e) ∧ isFloat (.expr e) = false := by
    cases e <;> exact h _ (by simp [Expr.nodes])
  cases e with
  | binary site op left right =>
    rw [exprSexp, formOf_list (kindOf_binaryOp op)]
    cases op <;> rfl
  | unary site op operand =>
    rw [exprSexp, formOf_list (kindOf_unaryOp op)]
    cases op <;> rfl
  | construct site name args => exact formOf_list (kindOf_name hself.1) _
  | element site name indices => rfl
  | const site value =>
    refine formOf_const ?_
    rintro x rfl
    cases hself.2
  | constr site name => exact formOf_word (kindOf_name hself.1)
  | var site name => exact formOf_word (kindOf_name hself.1)
  | delete site operand => exact formOf_list (kindOf_keyword .kwDelete rfl) _
  | dim site dimension name => exact formOf_list (kindOf_keyword .kwDim rfl) _
  | forLoop site counter first down last body =>
    exact formOf_list (kindOf_keyword .kwFor rfl) _
  | call site name args => exact formOf_list (kindOf_name hself.1) _
  | letIn site group body =>
    have hhead : kindOf "let-in" = some .kwLet := by decide +kernel
    exact formOf_list hhead _
  | ifThen site condition positive => exact formOf_list (kindOf_keyword .kwIf rfl) _
  | ifElse site condition positive negative =>
    exact formOf_list (kindOf_keyword .kwIf rfl) _
  | matchWith site scrutinee clauses =>
    exact formOf_list (kindOf_keyword .kwMatch rfl) _
  | new site ty => exact formOf_list (kindOf_keyword .kwNew rfl) _
  | whileLoop site condition body => exact formOf_list (kindOf_keyword .kwWhile rfl) _

lemma formOf_patternSexp {p : Pattern} (h : Readable p.nodes) :
    formOf (patternSexp p) = patternForm p := by
  have hself : Named (.pattern p) ∧ isFloat (.pattern p) = false := by
    cases p <;> exact h _ (by simp [Pattern.nodes])
  cases p with
  | const site value =>
    refine formOf_const ?_
    rintro x rfl
    cases hself.2
  | var site name => exact formOf_word (kindOf_name hself.1)
  | constr site name args =>
    cases args with
    | nil => exact formOf_word (kindOf_name hself.1)
    | cons arg args => exact formOf_list (kindOf_name hself.1) _

/-- Among trees with the names of a source and without floats, the nested list of a tree tells
what the tree is without its sites. -/
def Tells {α β : Type} (nodes : α → List Node) (item : α → Sexp) (bare : α → β) (a : α) : Prop :=
  ∀ a', Readable (nodes a) → Readable (nodes a') → item a = item a' → bare a = bare a'

lemma tells_list {α β : Type} {nodes : α → List Node} {item : α → Sexp} {bare : α → β}
    {l l' : List α} (h : ∀ a ∈ l, Tells nodes item bare a) (hl : Readable (l.flatMap nodes))
    (hl' : Readable (l'.flatMap nodes)) (heq : l.map item = l'.map item) :
    l.map bare = l'.map bare := by
  rw [readable_flatMap] at hl hl'
  exact map_of_map (fun a ha a' ha' => h a ha a' (hl a ha) (hl' a' ha')) heq

/-- The constant that a nested list is written for. -/
def constOf : Sexp → Const
  | .word text => .bool (text == "true")
  | .char value => .char value
  | .int value => .int value
  | .string value => .string value
  | _ => .unit

lemma constOf_constSexp {value : Const} (h : ∀ x, value ≠ .float x) :
    constOf (constSexp value) = value := by
  cases value with
  | bool value => cases value <;> rfl
  | float x => exact absurd rfl (h x)
  | _ => rfl

lemma param_tells (p : Param) : Tells (fun p => [.param p]) paramSexp bareParam p := by
  intro p' h h' heq
  rw [readable_singleton] at h h'
  obtain ⟨site, name, ty⟩ := p
  obtain ⟨site', name', ty'⟩ := p'
  cases ty with
  | none =>
    cases ty' with
    | none => rw [bareParam, bareParam, Sexp.word.inj heq]
    | some ty' => cases heq
  | some ty =>
    cases ty' with
    | none => cases heq
    | some ty' =>
      obtain ⟨rfl, hty⟩ : name = name' ∧ tyItems ty = tyItems ty' := by
        simpa [paramSexp] using heq
      rw [bareParam, bareParam, type_of_items (h.1.2 ty rfl) (h'.1.2 ty' rfl) hty]

lemma patternSexps_eq_map (ps : List Pattern) : patternSexps ps = ps.map patternSexp := by
  induction ps with
  | nil => rfl
  | cons p ps ih => rw [patternSexps, ih, List.map_cons]

lemma exprSexps_eq_map (es : List Expr) : exprSexps es = es.map exprSexp := by
  induction es with
  | nil => rfl
  | cons e es ih => rw [exprSexps, ih, List.map_cons]

lemma clauseSexps_eq_map (cs : List Clause) : clauseSexps cs = cs.map clauseSexp := by
  induction cs with
  | nil => rfl
  | cons c cs ih => rw [clauseSexps, ih, List.map_cons]

lemma defSexps_eq_map (ds : List Def) : defSexps ds = ds.map defSexp := by
  induction ds with
  | nil => rfl
  | cons d ds ih => rw [defSexps, ih, List.map_cons]

lemma pattern_tells : PatternCases (Tells Pattern.nodes patternSexp barePattern) where
  constr site name args ih := by
    intro p' h h' heq
    have hform := congrArg formOf heq
    rw [formOf_patternSexp h, formOf_patternSexp h'] at hform
    cases p' with
    | constr site' name' args' =>
      obtain ⟨rfl, hargs⟩ : name = name' ∧ args.map patternSexp = args'.map patternSexp := by
        cases args <;> cases args' <;>
          simp_all [patternSexp, patternForm, patternSexps_eq_map]
      rw [Pattern.nodes, patternNodes_eq_flatMap, readable_append] at h h'
      rw [barePattern, barePattern, barePatterns_eq_map, barePatterns_eq_map,
        tells_list ih h.1 h'.1 hargs]
    | const site' value => cases args <;> cases hform
    | var site' name' => cases args <;> cases hform
  const site value := by
    intro p' h h' heq
    have hform := congrArg formOf heq
    rw [formOf_patternSexp h, formOf_patternSexp h'] at hform
    cases p' with
    | constr site' name' args' => cases args' <;> cases hform
    | const site' value' =>
      rw [Pattern.nodes, readable_singleton] at h h'
      have hvalue := congrArg constOf heq
      rw [patternSexp, patternSexp, constOf_constSexp (by rintro x rfl; cases h.2),
        constOf_constSexp (by rintro x rfl; cases h'.2)] at hvalue
      rw [barePattern, barePattern, hvalue]
    | var site' name' => cases hform
  var site name := by
    intro p' h h' heq
    have hform := congrArg formOf heq
    rw [formOf_patternSexp h, formOf_patternSexp h'] at hform
    cases p' with
    | constr site' name' args' => cases args' <;> cases hform
    | const site' value' => cases hform
    | var site' name' => rw [barePattern, barePattern, Sexp.word.inj heq]

section

variable {e e' : Expr}

lemma sameForm (h : Readable e.nodes) (h' : Readable e'.nodes) (heq : exprSexp e = exprSexp e') :
    exprForm e = exprForm e' := by
  rw [← formOf_exprSexp h, heq, formOf_exprSexp h']

lemma exprs_of_sexps {es es' : List Expr} (h : ∀ e ∈ es, Tells Expr.nodes exprSexp bareExpr e)
    (hes : Readable (Expr.nodesOfList es)) (hes' : Readable (Expr.nodesOfList es'))
    (heq : exprSexps es = exprSexps es') : bareExprs es = bareExprs es' := by
  rw [exprNodes_eq_flatMap] at hes hes'
  rw [exprSexps_eq_map, exprSexps_eq_map] at heq
  rw [bareExprs_eq_map, bareExprs_eq_map, tells_list h hes hes' heq]

lemma clause_tells {c : Clause} (h : Tells Expr.nodes exprSexp bareExpr c.body) :
    Tells Clause.nodes clauseSexp bareClause c := by
  intro c' hc hc' heq
  obtain ⟨site, pattern, body⟩ := c
  obtain ⟨site', pattern', body'⟩ := c'
  rw [Clause.nodes, readable_append, readable_append] at hc hc'
  obtain ⟨hpattern, hbody⟩ : patternSexp pattern = patternSexp pattern' ∧
      exprSexp body = exprSexp body' := by simpa [clauseSexp] using heq
  have hbare : bareExpr body = bareExpr body' := h body' hc.1.2 hc'.1.2 hbody
  show Clause.mk _ (barePattern pattern) (bareExpr body) = .mk _ (barePattern pattern') _
  rw [pattern_tells.pattern pattern pattern' hc.1.1 hc'.1.1 hpattern, hbare]
  rfl

/-- The second word of a list for a let group tells whether the group is recursive. -/
lemma group_tells {g : LetGroup} (h : ∀ d ∈ g.defs, Tells Def.nodes defSexp bareDef d) :
    Tells LetGroup.nodes groupSexp bareGroup g := by
  intro g' hg hg' heq
  obtain ⟨site, isRec, defs⟩ := g
  obtain ⟨site', isRec', defs'⟩ := g'
  rw [LetGroup.nodes, readable_append, defNodes_eq_flatMap] at hg hg'
  -- A definition is a list, so that none can be taken for the word after `let`.
  have hnotRec : ∀ ds : List Def, ∀ rest, defSexps ds ≠ .word "rec" :: rest := by
    intro ds rest heq
    cases ds with
    | nil => cases heq
    | cons d ds => cases d <;> cases heq
  obtain ⟨rfl, hdefs⟩ : isRec = isRec' ∧ defs.map defSexp = defs'.map defSexp := by
    rw [← defSexps_eq_map, ← defSexps_eq_map]
    cases isRec <;> cases isRec'
    · exact ⟨rfl, by simpa [groupSexp] using heq⟩
    · exact absurd (by simpa [groupSexp] using heq) (hnotRec defs _)
    · exact absurd (by simpa [groupSexp] using heq.symm) (hnotRec defs' _)
    · exact ⟨rfl, by simpa [groupSexp] using heq⟩
  have hbare : defs.map bareDef = defs'.map bareDef := tells_list h hg.1 hg'.1 hdefs
  rw [bareGroup, bareGroup, bareDefs_eq_map, bareDefs_eq_map, hbare]

end

/-- The nested list of a tree tells the tree. -/
lemma tree_tells : TreeCases (Tells Expr.nodes exprSexp bareExpr)
    (Tells Def.nodes defSexp bareDef) where
  binary site op left right hl hr e' h h' heq := by
    -- The forms agree, which leaves one constructor for the other tree, here and below.
    have hform := sameForm h h' heq
    cases e' with
    | binary site' op' left' right' =>
      rw [Expr.nodes, readable_append, readable_append] at h h'
      obtain ⟨hop, hleft, hright⟩ : op.symbol = op'.symbol ∧ exprSexp left = exprSexp left' ∧
          exprSexp right = exprSexp right' := by simpa [exprSexp] using heq
      rw [bareExpr, bareExpr, binaryOp_of_symbol hop, hl left' h.1.1 h'.1.1 hleft,
        hr right' h.1.2 h'.1.2 hright]
    | _ => cases hform
  unary site op operand ho e' h h' heq := by
    have hform := sameForm h h' heq
    cases e' with
    | unary site' op' operand' =>
      rw [Expr.nodes, readable_append] at h h'
      obtain ⟨hop, hoperand⟩ : op.symbol = op'.symbol ∧ exprSexp operand = exprSexp operand' := by
        simpa [exprSexp] using heq
      rw [bareExpr, bareExpr, unaryOp_of_symbol hop, ho operand' h.1 h'.1 hoperand]
    | _ => cases hform
  construct site name args ih e' h h' heq := by
    have hform := sameForm h h' heq
    cases e' with
    | construct site' name' args' =>
      rw [Expr.nodes, readable_append] at h h'
      obtain ⟨rfl, hargs⟩ : name = name' ∧ exprSexps args = exprSexps args' := by
        simpa [exprSexp] using heq
      rw [bareExpr, bareExpr, exprs_of_sexps ih h.1 h'.1 hargs]
    | _ => cases hform
  element site name indices ih e' h h' heq := by
    have hform := sameForm h h' heq
    cases e' with
    | element site' name' indices' =>
      rw [Expr.nodes, readable_append] at h h'
      obtain ⟨rfl, hindices⟩ : name = name' ∧ exprSexps indices = exprSexps indices' := by
        simpa [exprSexp] using heq
      rw [bareExpr, bareExpr, exprs_of_sexps ih h.1 h'.1 hindices]
    | _ => cases hform
  const site value e' h h' heq := by
    have hform := sameForm h h' heq
    cases e' with
    | const site' value' =>
      rw [Expr.nodes, readable_singleton] at h h'
      have hvalue := congrArg constOf heq
      rw [exprSexp, exprSexp, constOf_constSexp (by rintro x rfl; cases h.2),
        constOf_constSexp (by rintro x rfl; cases h'.2)] at hvalue
      rw [bareExpr, bareExpr, hvalue]
    | _ => cases hform
  constr site name e' h h' heq := by
    have hform := sameForm h h' heq
    cases e' with
    | constr site' name' => rw [bareExpr, bareExpr, Sexp.word.inj heq]
    | _ => cases hform
  var site name e' h h' heq := by
    have hform := sameForm h h' heq
    cases e' with
    | var site' name' => rw [bareExpr, bareExpr, Sexp.word.inj heq]
    | _ => cases hform
  delete site operand ho e' h h' heq := by
    have hform := sameForm h h' heq
    cases e' with
    | delete site' operand' =>
      rw [Expr.nodes, readable_append] at h h'
      have hoperand : exprSexp operand = exprSexp operand' := by simpa [exprSexp] using heq
      rw [bareExpr, bareExpr, ho operand' h.1 h'.1 hoperand]
    | _ => cases hform
  dim site dimension name e' h h' heq := by
    have hform := sameForm h h' heq
    cases e' with
    | dim site' dimension' name' =>
      obtain ⟨rfl, rfl⟩ : dimension = dimension' ∧ name = name' := by
        simpa [exprSexp] using heq
      rfl
    | _ => cases hform
  forLoop site counter first down last body hf hl hb e' h h' heq := by
    have hform := sameForm h h' heq
    cases e' with
    | forLoop site' counter' first' down' last' body' =>
      simp only [Expr.nodes, readable_append] at h h'
      obtain ⟨rfl, hfirst, hway, hlast, hbody⟩ : counter = counter' ∧
          exprSexp first = exprSexp first' ∧
          (if down then "downto" else "to") = (if down' then "downto" else "to") ∧
          exprSexp last = exprSexp last' ∧ exprSexp body = exprSexp body' := by
        simpa only [exprSexp, Sexp.list.injEq, List.cons.injEq, Sexp.word.injEq, true_and,
          and_true] using heq
      have hdown : down = down' := by
        revert hway
        cases down <;> cases down' <;> simp
      rw [bareExpr, bareExpr, hdown, hf first' h.1.1.1 h'.1.1.1 hfirst,
        hl last' h.1.1.2 h'.1.1.2 hlast, hb body' h.1.2 h'.1.2 hbody]
    | _ => cases hform
  call site name args ih e' h h' heq := by
    have hform := sameForm h h' heq
    cases e' with
    | call site' name' args' =>
      rw [Expr.nodes, readable_append] at h h'
      obtain ⟨rfl, hargs⟩ : name = name' ∧ exprSexps args = exprSexps args' := by
        simpa [exprSexp] using heq
      rw [bareExpr, bareExpr, exprs_of_sexps ih h.1 h'.1 hargs]
    | _ => cases hform
  letIn site group body hg hb e' h h' heq := by
    have hform := sameForm h h' heq
    cases e' with
    | letIn site' group' body' =>
      rw [Expr.nodes, readable_append, readable_append] at h h'
      obtain ⟨hgroup, hbody⟩ : groupSexp group = groupSexp group' ∧
          exprSexp body = exprSexp body' := by simpa [exprSexp] using heq
      rw [bareExpr, bareExpr, group_tells hg group' h.1.1 h'.1.1 hgroup,
        hb body' h.1.2 h'.1.2 hbody]
    | _ => cases hform
  ifThen site condition positive hc hp e' h h' heq := by
    have hform := sameForm h h' heq
    cases e' with
    | ifThen site' condition' positive' =>
      rw [Expr.nodes, readable_append, readable_append] at h h'
      obtain ⟨hcondition, hpositive⟩ : exprSexp condition = exprSexp condition' ∧
          exprSexp positive = exprSexp positive' := by simpa [exprSexp] using heq
      rw [bareExpr, bareExpr, hc condition' h.1.1 h'.1.1 hcondition,
        hp positive' h.1.2 h'.1.2 hpositive]
    | _ => cases hform
  ifElse site condition positive negative hc hp hn e' h h' heq := by
    have hform := sameForm h h' heq
    cases e' with
    | ifElse site' condition' positive' negative' =>
      simp only [Expr.nodes, readable_append] at h h'
      obtain ⟨hcondition, hpositive, hnegative⟩ : exprSexp condition = exprSexp condition' ∧
          exprSexp positive = exprSexp positive' ∧ exprSexp negative = exprSexp negative' := by
        simpa [exprSexp] using heq
      rw [bareExpr, bareExpr, hc condition' h.1.1.1 h'.1.1.1 hcondition,
        hp positive' h.1.1.2 h'.1.1.2 hpositive, hn negative' h.1.2 h'.1.2 hnegative]
    | _ => cases hform
  matchWith site scrutinee clauses hs hcs e' h h' heq := by
    have hform := sameForm h h' heq
    cases e' with
    | matchWith site' scrutinee' clauses' =>
      rw [Expr.nodes, readable_append, readable_append, clauseNodes_eq_flatMap] at h h'
      obtain ⟨hscrutinee, hclauses⟩ : exprSexp scrutinee = exprSexp scrutinee' ∧
          clauses.map clauseSexp = clauses'.map clauseSexp := by
        simpa [exprSexp, clauseSexps_eq_map] using heq
      rw [bareExpr, bareExpr, hs scrutinee' h.1.1 h'.1.1 hscrutinee, bareClauses_eq_map,
        bareClauses_eq_map, tells_list (fun c hc => clause_tells (hcs c hc)) h.1.2 h'.1.2 hclauses]
    | _ => cases hform
  new site ty e' h h' heq := by
    have hform := sameForm h h' heq
    cases e' with
    | new site' ty' =>
      rw [Expr.nodes, readable_singleton] at h h'
      have hty : typeSexp ty = typeSexp ty' := by simpa [exprSexp] using heq
      rw [bareExpr, bareExpr, type_of_sexp h.1 h'.1 hty]
    | _ => cases hform
  whileLoop site condition body hc hb e' h h' heq := by
    have hform := sameForm h h' heq
    cases e' with
    | whileLoop site' condition' body' =>
      rw [Expr.nodes, readable_append, readable_append] at h h'
      obtain ⟨hcondition, hbody⟩ : exprSexp condition = exprSexp condition' ∧
          exprSexp body = exprSexp body' := by simpa [exprSexp] using heq
      rw [bareExpr, bareExpr, hc condition' h.1.1 h'.1.1 hcondition, hb body' h.1.2 h'.1.2 hbody]
    | _ => cases hform
  function site name params result body hb d' h h' heq := by
    cases d' with
    | function site' name' params' result' body' =>
      rw [Def.nodes, readable_append, readable_append, List.map_eq_flatMap,
        readable_singleton] at h h'
      obtain ⟨rfl, hparams, hrest⟩ : name = name' ∧ params.map paramSexp = params'.map paramSexp ∧
          annotationSexps result ++ [exprSexp body] =
            annotationSexps result' ++ [exprSexp body'] := by simpa [defSexp] using heq
      obtain ⟨hresult, hbody⟩ := List.append_inj' hrest rfl
      rw [bareDef, bareDef, tells_list (fun p _ => param_tells p) h.1.1 h'.1.1 hparams,
        annotation_of_sexps h.2.1.2 h'.2.1.2 hresult,
        hb body' h.1.2 h'.1.2 (List.cons.inj hbody).1]
    | _ => simp [defSexp] at heq
  constant site name ty body hb d' h h' heq := by
    cases d' with
    | constant site' name' ty' body' =>
      rw [Def.nodes, readable_append, readable_singleton] at h h'
      obtain ⟨rfl, hrest⟩ : name = name' ∧
          annotationSexps ty ++ [exprSexp body] = annotationSexps ty' ++ [exprSexp body'] := by
        simpa [defSexp] using heq
      obtain ⟨hty, hbody⟩ := List.append_inj' hrest rfl
      rw [bareDef, bareDef, annotation_of_sexps h.2.1.2 h'.2.1.2 hty,
        hb body' h.1 h'.1 (List.cons.inj hbody).1]
    | _ => simp [defSexp] at heq
  mutableVar site name ty d' h h' heq := by
    cases d' with
    | mutableVar site' name' ty' =>
      rw [Def.nodes, readable_singleton] at h h'
      obtain ⟨rfl, hty⟩ : name = name' ∧ annotationSexps ty = annotationSexps ty' := by
        simpa [defSexp] using heq
      rw [bareDef, bareDef, annotation_of_sexps h.1.2 h'.1.2 hty]
    | mutableArray site' name' dims' ty' => cases ty <;> simp [defSexp, annotationSexps] at heq
    | _ => simp [defSexp] at heq
  mutableArray site name dims ty ih d' h h' heq := by
    cases d' with
    | mutableArray site' name' dims' ty' =>
      rw [Def.nodes, readable_append, readable_singleton] at h h'
      obtain ⟨rfl, hdims, hty⟩ : name = name' ∧ exprSexps dims = exprSexps dims' ∧
          annotationSexps ty = annotationSexps ty' := by simpa [defSexp] using heq
      rw [bareDef, bareDef, exprs_of_sexps ih h.1 h'.1 hdims,
        annotation_of_sexps h.2.1.2 h'.2.1.2 hty]
    | mutableVar site' name' ty' => cases ty' <;> simp [defSexp, annotationSexps] at heq
    | _ => simp [defSexp] at heq

lemma constructor_tells (c : ConstructorDef) :
    Tells (fun c => [.constructor c]) constructorSexp bareConstructor c := by
  intro c' h h' heq
  rw [readable_singleton] at h h'
  obtain ⟨site, name, args⟩ := c
  obtain ⟨site', name', args'⟩ := c'
  obtain ⟨rfl, hargs⟩ : name = name' ∧ args.map typeSexp = args'.map typeSexp := by
    simpa [constructorSexp] using heq
  rw [bareConstructor, bareConstructor, types_of_sexps h.1.2 h'.1.2 hargs]

lemma typeDef_tells (d : TypeDef) : Tells TypeDef.nodes typeDefSexp bareTypeDef d := by
  intro d' h h' heq
  rw [TypeDef.nodes, readable_append, List.map_eq_flatMap] at h h'
  obtain ⟨site, name, constructors⟩ := d
  obtain ⟨site', name', constructors'⟩ := d'
  obtain ⟨rfl, hconstructors⟩ : name = name' ∧
      constructors.map constructorSexp = constructors'.map constructorSexp := by
    simpa [typeDefSexp] using heq
  rw [bareTypeDef, bareTypeDef,
    tells_list (fun c _ => constructor_tells c) h.1 h'.1 hconstructors]

lemma typeGroup_tells (g : TypeGroup) : Tells TypeGroup.nodes typeGroupSexp bareTypeGroup g := by
  intro g' h h' heq
  rw [TypeGroup.nodes, readable_append] at h h'
  obtain ⟨site, defs⟩ := g
  obtain ⟨site', defs'⟩ := g'
  have hdefs : defs.map typeDefSexp = defs'.map typeDefSexp := by
    simpa [typeGroupSexp] using heq
  rw [bareTypeGroup, bareTypeGroup, tells_list (fun d _ => typeDef_tells d) h.1 h'.1 hdefs]

lemma groupSexp_ne_typeGroupSexp (g : LetGroup) (g' : TypeGroup) :
    groupSexp g ≠ typeGroupSexp g' := by
  obtain ⟨site, isRec, defs⟩ := g
  cases isRec <;> simp [groupSexp, typeGroupSexp]

lemma definition_tells (d : Definition) :
    Tells Definition.nodes definitionSexp bareDefinition d := by
  intro d' h h' heq
  cases d with
  | lets group =>
    cases d' with
    | lets group' =>
      rw [bareDefinition, bareDefinition,
        group_tells (tree_tells.group group) group' h h' heq]
    | types group' => exact absurd heq (groupSexp_ne_typeGroupSexp group group')
  | types group =>
    cases d' with
    | lets group' => exact absurd heq.symm (groupSexp_ne_typeGroupSexp group' group)
    | types group' => rw [bareDefinition, bareDefinition, typeGroup_tells group group' h h' heq]

/-- The lines of definitions. -/
def dumpedLines (definitions : List Definition) : List Char :=
  definitions.flatMap fun d => (definitionSexp d).render ++ ['\n']

lemma toList_programText {program : Program} (h : Readable program.nodes) :
    program.text.toList = dumpedLines program.definitions := by
  rw [Program.nodes, readable_flatMap] at h
  rw [Program.text, String.toList_join, List.flatMap_map, dumpedLines]
  refine List.flatMap_congr fun d hd => ?_
  rw [String.toList_append, (writes_definition (h d hd)).2]
  rfl

/-- A line break ends each definition, so that the lines are read one by one. -/
lemma sexps_of_lines {ds ds' : List Definition} (h : Readable (ds.flatMap Definition.nodes))
    (h' : Readable (ds'.flatMap Definition.nodes)) (heq : dumpedLines ds = dumpedLines ds') :
    ds.map definitionSexp = ds'.map definitionSexp := by
  induction ds generalizing ds' with
  | nil =>
    cases ds' with
    | nil => rfl
    | cons d' ds' => simp [dumpedLines] at heq
  | cons d ds ih =>
    cases ds' with
    | nil => simp [dumpedLines] at heq
    | cons d' ds' =>
      rw [List.flatMap_cons, readable_append] at h h'
      have hlines : (definitionSexp d).render ++ '\n' :: dumpedLines ds =
          (definitionSexp d').render ++ '\n' :: dumpedLines ds' := by
        simpa [dumpedLines] using heq
      have hbreak : ∀ r, Delimits ('\n' :: r) := by
        intro r c hc
        obtain rfl : '\n' = c := Option.some.inj hc
        simp
      obtain ⟨hd, hrest⟩ := readsOnce _ _ _ _ (writes_definition h.1).1 (writes_definition h'.1).1
        (hbreak _) (hbreak _) hlines
      rw [List.map_cons, List.map_cons, hd, ih h.2 h'.2 (List.cons.inj hrest).2]

/-- Programs with the names of a source and without floats that are written alike differ in
sites only. -/
lemma program_of_text {p q : Program} (hp : Readable p.nodes) (hq : Readable q.nodes)
    (h : p.text = q.text) :
    p.definitions.map bareDefinition = q.definitions.map bareDefinition := by
  have hlines : dumpedLines p.definitions = dumpedLines q.definitions := by
    rw [← toList_programText hp, h, toList_programText hq]
  exact tells_list (fun d _ => definition_tells d) hp hq (sexps_of_lines hp hq hlines)

end Llama.Proofs
