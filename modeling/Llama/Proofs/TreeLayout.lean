import Llama.Proofs.DefinitionRounds
import Llama.Proofs.PostOrder
import Llama.Proofs.TokenStretches
import Llama.Token.Lexer

/-!
# How trees lie in their tokens

A node of a tree consists of names, constants, types and smaller nodes. `Woven ts ps` says that the
tokens `ts` spell the parts `ps` one after the other, with nothing but keywords, symbols and signs
between them, and that every node reaches from its first to its last token or part. Whatever is
read is woven into exactly the tokens that were taken for it, so the tokens of a program are woven
of its definitions.
-/

namespace Llama.Proofs

open Llama.Parser Llama.Grammar

variable {kind : TokenKind}

/-- What the tokens of a node spell. -/
inductive Part where
  | name (name : String)
  /-- The name that a type definition defines. -/
  | typeName (name : String)
  /-- A constant of an expression. -/
  | const (value : Const)
  /-- A constant of a pattern. -/
  | matched (value : Const)
  /-- The number of a dimension of an array. -/
  | dimension (number : Int)
  | ty (ty : Ty)
  | node (node : Node)

/-- The parts of an expression in the order of the source. -/
def exprParts : Expr → List Part
  | .binary _ _ left right => [.node (.expr left), .node (.expr right)]
  | .unary _ _ operand | .delete _ operand => [.node (.expr operand)]
  | .construct _ name args | .element _ name args | .call _ name args =>
    .name name :: args.map fun e => .node (.expr e)
  | .const _ value => [.const value]
  | .constr _ name | .var _ name => [.name name]
  | .dim _ dimension name => [.dimension dimension, .name name]
  | .forLoop _ counter first _ last body =>
    [.name counter, .node (.expr first), .node (.expr last), .node (.expr body)]
  | .letIn _ group body => [.node (.letGroup group), .node (.expr body)]
  | .ifThen _ condition positive => [.node (.expr condition), .node (.expr positive)]
  | .ifElse _ condition positive negative =>
    [.node (.expr condition), .node (.expr positive), .node (.expr negative)]
  | .matchWith _ scrutinee clauses =>
    .node (.expr scrutinee) :: clauses.map fun c => .node (.clause c)
  | .new _ ty => [.ty ty]
  | .whileLoop _ condition body => [.node (.expr condition), .node (.expr body)]

/-- The parts of a definition in the order of the source. -/
def defParts : Def → List Part
  | .function _ name params result body =>
    .name name :: params.map (fun p => .node (.param p)) ++ result.toList.map .ty ++
      [.node (.expr body)]
  | .constant _ name ty body => .name name :: ty.toList.map .ty ++ [.node (.expr body)]
  | .mutableVar _ name ty => .name name :: ty.toList.map .ty
  | .mutableArray _ name dims ty =>
    .name name :: dims.map (fun e => .node (.expr e)) ++ ty.toList.map .ty

/-- The parts of a node in the order of the source. -/
def parts : Node → List Part
  | .letGroup g => g.defs.map fun d => .node (.definition d)
  | .definition d => defParts d
  | .param p => .name p.name :: p.ty.toList.map .ty
  | .expr e => exprParts e
  | .clause c => [.node (.pattern c.pattern), .node (.expr c.body)]
  | .pattern (.constr _ name args) => .name name :: args.map fun p => .node (.pattern p)
  | .pattern (.const _ value) => [.matched value]
  | .pattern (.var _ name) => [.name name]
  | .typeGroup g => g.defs.map fun d => .node (.typeDef d)
  | .typeDef d => .typeName d.name :: d.constructors.map fun c => .node (.constructor c)
  | .constructor c => .name c.name :: c.args.map .ty

/-- Whether a token can be a sign of a number. -/
def isSign : TokenKind → Bool
  | .plus | .minus | .fPlus | .fMinus => true
  | _ => false

def isNegative : TokenKind → Bool
  | .minus | .fMinus => true
  | _ => false

/-- The text of a number with its sign. -/
def signedText (sign : TokenKind) (digits : String) : String :=
  if isNegative sign then "-" ++ digits else digits

/-- Whether a token only holds the parts of a node together. -/
def isMark (kind : TokenKind) : Bool :=
  kind != .genid && kind != .conid && kind != .kwDim && !startsConstant kind && !isSign kind

lemma isMark_of {t : Token} (h : t.kind = kind) (hmark : isMark kind = true) :
    isMark t.kind = true := by
  rw [h, hmark]

/-- The tokens that can stand for the name of a type definition. -/
def typeNameKinds : List TokenKind := [.genid, .kwInt, .kwBool, .kwChar, .kwFloat, .kwUnit]

/-- The tokens between `array` and `of` for a number of dimensions. -/
def DimsSpelled (ts : List Token) (dims : Nat) : Prop :=
  (∀ t ∈ ts, isMark t.kind = true) ∧
    dims = if ts = [] then 1 else ts.countP fun t => t.kind == .times

/-- The tokens are a way to write the type. -/
inductive TypeSpelled : List Token → Ty → Prop
  | keyword {t : Token} {ty : Ty} (h : keywordType? t.kind = some ty) : TypeSpelled [t] ty
  | named {t : Token} (h : t.kind = .genid) : TypeSpelled [t] (namedType t.value)
  | parens {first last : Token} {ts : List Token} {ty : Ty} (hfirst : first.kind = .lParen)
      (inner : TypeSpelled ts ty) (hlast : last.kind = .rParen) :
      TypeSpelled (first :: ts ++ [last]) ty
  | ref {t : Token} {ts : List Token} {ty : Ty} (inner : TypeSpelled ts ty)
      (h : t.kind = .kwRef) : TypeSpelled (ts ++ [t]) (.ref ty)
  | func {t : Token} {ts us : List Token} {source target : Ty} (left : TypeSpelled ts source)
      (h : t.kind = .arrow) (right : TypeSpelled us target) :
      TypeSpelled (ts ++ [t] ++ us) (.func source target)
  | array {first middle : Token} {ts us : List Token} {dims : Nat} {element : Ty}
      (hfirst : first.kind = .kwArray) (hdims : DimsSpelled ts dims)
      (hmiddle : middle.kind = .kwOf) (inner : TypeSpelled us element) :
      TypeSpelled ([first] ++ ts ++ [middle] ++ us) (.array element dims)

/-- The tokens spell parts that are no nodes. -/
inductive Spelling : List Token → List Part → Prop
  | name {t : Token} (h : t.kind = .genid ∨ t.kind = .conid) : Spelling [t] [.name t.value]
  | typeName {t : Token} (h : t.kind ∈ typeNameKinds) : Spelling [t] [.typeName t.value]
  | const {t : Token} {value : Const} (h : constantOf t.kind t.value = .ok value) :
      Spelling [t] [.const value]
  /-- The sign belongs to a constant that has no digits of its own. -/
  | least {sign t : Token} {n : Int} (hsign : sign.kind = .minus) (hkind : t.kind = .intLiteral)
      (hnone : Text.int64? t.value.toList = none)
      (h : Text.int64? ('-' :: t.value.toList) = some n) : Spelling [sign, t] [.const (.int n)]
  | unit {first last : Token} (hfirst : first.kind = .lParen) (hlast : last.kind = .rParen) :
      Spelling [first, last] [.const .unit]
  | matched {t : Token} {value : Const} (h : constantOf t.kind t.value = .ok value) :
      Spelling [t] [.matched value]
  /-- In a pattern a sign always belongs to its constant. -/
  | signed {sign t : Token} {value : Const} (hsign : isSign sign.kind = true)
      (h : constantOf t.kind (signedText sign.kind t.value) = .ok value) :
      Spelling [sign, t] [.matched value]
  | dim {first t : Token} (hfirst : first.kind = .kwDim) (h : t.kind = .genid) :
      Spelling [first, t] [.dimension 1, .name t.value]
  | dimAt {first number t : Token} {n : Int} (hfirst : first.kind = .kwDim)
      (hnumber : number.kind = .intLiteral) (hn : Text.int64? number.value.toList = some n)
      (h : t.kind = .genid) : Spelling [first, number, t] [.dimension n, .name t.value]
  | ty {ts : List Token} {ty : Ty} (h : TypeSpelled ts ty) : Spelling ts [.ty ty]

/-- A place is where the first token starts, or where the first part does. -/
def StartsAt (ts : List Token) (ps : List Part) (place : Place) : Prop :=
  (∃ t, ts.head? = some t ∧ t.span.start = place) ∨
    ∃ n : Node, ps.head? = some (.node n) ∧ n.site.span.start = place

/-- A place is where the last token stops, or where the last part does. -/
def StopsAt (ts : List Token) (ps : List Part) (place : Place) : Prop :=
  (∃ t, ts.getLast? = some t ∧ t.span.stop = place) ∨
    ∃ n : Node, ps.getLast? = some (.node n) ∧ n.site.span.stop = place

/-- The span of a node reaches from its first to its last token or part. -/
structure Bounds (ts : List Token) (n : Node) : Prop where
  start : StartsAt ts (parts n) n.site.span.start
  stop : StopsAt ts (parts n) n.site.span.stop

/-- The tokens spell the parts in their order. Signs stand only before expressions. -/
inductive Woven : List Token → List Part → Prop
  | nil : Woven [] []
  | mark {t : Token} {ts : List Token} {ps : List Part} (h : isMark t.kind = true)
      (rest : Woven ts ps) : Woven (t :: ts) ps
  | sign {t : Token} {ts : List Token} {e : Expr} {ps : List Part} (h : isSign t.kind = true)
      (rest : Woven ts (.node (.expr e) :: ps)) : Woven (t :: ts) (.node (.expr e) :: ps)
  | spelled {us ts : List Token} {qs ps : List Part} (h : Spelling us qs) (rest : Woven ts ps) :
      Woven (us ++ ts) (qs ++ ps)
  | node {us ts : List Token} {n : Node} {ps : List Part} (inside : Woven us (parts n))
      (hbounds : Bounds us n) (rest : Woven ts ps) : Woven (us ++ ts) (.node n :: ps)

variable {ts us : List Token} {ps qs : List Part} {t : Token}

lemma Woven.append (h : Woven ts ps) (h' : Woven us qs) : Woven (ts ++ us) (ps ++ qs) := by
  induction h with
  | nil => exact h'
  | mark hmark _ ih => exact .mark hmark ih
  | sign hsign _ ih => exact .sign hsign ih
  | spelled hspelled _ ih =>
    rw [List.append_assoc, List.append_assoc]
    exact .spelled hspelled ih
  | node inside hbounds _ _ ih =>
    rw [List.append_assoc]
    exact .node inside hbounds ih

lemma Woven.of_spelling (h : Spelling ts ps) : Woven ts ps := by
  have hwoven := Woven.spelled h .nil
  rwa [List.append_nil, List.append_nil] at hwoven

lemma Woven.of_node {n : Node} (h : Woven ts (parts n)) (hbounds : Bounds ts n) :
    Woven ts [.node n] := by
  have hwoven := Woven.node h hbounds .nil
  rwa [List.append_nil] at hwoven

lemma Woven.thenMark (h : Woven ts ps) (hkind : t.kind = kind) (hmark : isMark kind = true) :
    Woven (ts ++ [t]) ps := by
  have hwoven := h.append (.mark (t := t) (isMark_of hkind hmark) .nil)
  rwa [List.append_nil] at hwoven

lemma Woven.thenName (h : Woven ts ps) (hkind : t.kind = .genid ∨ t.kind = .conid) :
    Woven (ts ++ [t]) (ps ++ [.name t.value]) :=
  h.append (.of_spelling (.name hkind))

/-- The place of the first token. -/
lemma startsAt_head (h : ts.head? = some t) : StartsAt ts ps t.span.start := .inl ⟨t, h, rfl⟩

/-- The end of the last token. -/
lemma stopsAt_last (h : ts.getLast? = some t) : StopsAt ts ps t.span.stop := .inl ⟨t, h, rfl⟩

/-- A node of a single token. -/
lemma woven_leaf {n : Node} (h : Spelling [t] (parts n)) (hspan : n.site.span = t.span) :
    Woven [t] [.node n] :=
  .of_node (.of_spelling h) ⟨hspan ▸ startsAt_head rfl, hspan ▸ stopsAt_last rfl⟩

variable {α : Type} {p : Parser α} {d : Deeper}

/-- The parser takes tokens that are woven of the parts of its result. -/
def Lays (p : Parser α) (ps : α → List Part) : Prop := Takes false [] p fun ts a => Woven ts (ps a)

/-- The same up to a type that may be left out because it cannot be read. -/
def LaysLoosely (p : Parser α) (ps : α → List Part) : Prop :=
  Takes true [] p fun ts a => Woven ts (ps a)

lemma lays_many {g : α → Part} {starts : TokenKind → Bool} (hcolon : starts .colon = false)
    (hp : Lays p fun a => [g a]) : Lays (many starts p) (List.map g) :=
  takes_many hcolon hp .nil fun _ _ _ _ ha has => ha.append has

lemma takes_woven_separated {loose : Bool} {g : α → Part} {separator : TokenKind}
    (hcolon : (separator == .colon) = false) (hmark : isMark separator = true)
    (hp : Takes loose [] p fun ts a => Woven ts [g a]) :
    Takes loose [] (separated separator p) fun ts as => Woven ts (as.map g) := by
  have hcons : ∀ (token : Token) ts a us as, token.kind = separator → Woven ts [g a] →
      Woven us (List.map g as) → Woven (token :: ts ++ us) (List.map g (a :: as)) := by
    intro token ts a us as htoken ha has
    exact .mark (isMark_of htoken hmark) (ha.append has)
  intro next
  refine (takes_separated hcolon hp .nil hcons next).imp fun taken as h => ?_
  obtain ⟨ts, a, us, rest, ha, hrest, rfl, rfl⟩ := h
  exact ha.append hrest

lemma lays_separated {g : α → Part} {separator : TokenKind}
    (hcolon : (separator == .colon) = false) (hmark : isMark separator = true)
    (hp : Lays p fun a => [g a]) : Lays (separated separator p) (List.map g) :=
  takes_woven_separated hcolon hmark hp

lemma lays_between {ps : α → List Part} {opening closing : TokenKind}
    (hopening : isMark opening = true) (hclosing : isMark closing = true) (hp : Lays p ps) :
    Lays (between opening closing p) ps := by
  intro next
  refine (takes_between hp next).imp fun taken a h => ?_
  obtain ⟨first, ts, last, hfirst, ha, hlast, rfl⟩ := h
  exact Woven.thenMark (.mark (isMark_of hfirst hopening) ha) hlast hclosing

/-- What the parsers one level deeper take. -/
structure DeeperLays (d : Deeper) : Prop where
  exprFrom : ∀ rank, Lays (d.exprFrom rank) fun e => [.node (.expr e)]
  operand : Lays d.operand fun e => [.node (.expr e)]
  simple : Lays d.simple fun e => [.node (.expr e)]
  ty : Takes false [] d.ty TypeSpelled
  arrayTy : Takes false [] d.arrayTy TypeSpelled
  pattern : Lays d.pattern fun p => [.node (.pattern p)]

lemma takes_typeAtom (h : DeeperLays d) : Takes false [] (typeAtom d) TypeSpelled := by
  intro next
  refine takes_peekKind ?_
  cases next with
  | none => exact takes_unexpected _
  | some token =>
    dsimp only [Option.map_some]
    split
    next => exact takes_one takesOne_genid fun t ht _ => takes_pure (.named ht)
    next =>
      refine (takes_between h.ty _).imp fun taken ty hty => ?_
      obtain ⟨first, ts, last, hfirst, hinner, hlast, rfl⟩ := hty
      exact .parens hfirst hinner hlast
    next => exact h.arrayTy _
    next kind _ _ _ hkind =>
      cases hkind
      split
      next hkeyword => exact takes_advance fun _ => takes_pure (.keyword hkeyword)
      next => exact takes_unexpected _
    next hkind => cases hkind

lemma typeSpelled_refs {refs : List Token} {ty : Ty} (h : TypeSpelled ts ty)
    (hrefs : ∀ t ∈ refs, t.kind = .kwRef) :
    TypeSpelled (ts ++ refs) (refs.foldl (fun ty _ => .ref ty) ty) := by
  induction refs generalizing ts ty with
  | nil => rwa [List.append_nil]
  | cons t refs ih =>
    obtain ⟨ht, hrefs⟩ := List.forall_mem_cons.mp hrefs
    rw [← List.singleton_append, ← List.append_assoc]
    exact ih (h.ref ht) hrefs

lemma takes_typeOperand (h : DeeperLays d) : Takes false [] (typeOperand d) TypeSpelled := by
  have hrefs : Takes false [] (many (· == .kwRef) (expect .kwRef)) fun taken refs =>
      taken = refs ∧ ∀ t ∈ refs, t.kind = .kwRef := by
    refine takes_many rfl (takesOne_expect _ []) ⟨rfl, fun _ h => absurd h List.not_mem_nil⟩ ?_
    rintro ts a us as ⟨t, ht, rfl, rfl⟩ ⟨rfl, has⟩
    exact ⟨rfl, List.forall_mem_cons.mpr ⟨ht, has⟩⟩
  intro next
  refine takes_part (takes_typeAtom h next) fun ts ty hty next => ?_
  refine takes_part (hrefs next) fun us refs hus _ => takes_pure ?_
  obtain ⟨rfl, hkinds⟩ := hus
  exact typeSpelled_refs hty hkinds

lemma takes_arrowType (h : DeeperLays d) : Takes false [] (arrowType d) TypeSpelled := by
  intro next
  refine takes_part (takes_typeOperand h next) fun ts source hsource _ => ?_
  refine takes_isAt fun _ => takes_ite (fun _ => ?_) fun _ => takes_pure hsource
  refine takes_expect fun t ht next => takes_part (h.ty next) fun us target htarget _ => ?_
  exact takes_pure (hsource.func ht htarget)

lemma takes_dimensions : Takes false [] dimensions DimsSpelled := by
  have hcons : ∀ (token : Token) ts (a : Token) us as, token.kind = .comma →
      (∃ t, t.kind = .times ∧ ts = [] ++ [t] ∧ a = t) →
      ((∀ t ∈ us, isMark t.kind = true) ∧ as.length = us.countP fun t => t.kind == .times) →
      (∀ t ∈ token :: ts ++ us, isMark t.kind = true) ∧
        (a :: as).length = (token :: ts ++ us).countP fun t => t.kind == .times := by
    rintro token ts a us as htoken ⟨t, ht, rfl, rfl⟩ ⟨hmarks, hcount⟩
    refine ⟨?_, by simp [htoken, ht, hcount]⟩
    exact List.forall_mem_cons.mpr
      ⟨isMark_of htoken rfl, List.forall_mem_cons.mpr ⟨isMark_of ht rfl, hmarks⟩⟩
  intro next
  refine takes_isAt fun _ => takes_ite (fun _ => ?_) fun _ => takes_pure ⟨by simp, rfl⟩
  refine takes_part (takes_between (takes_separated rfl (takesOne_expect .times [])
    ⟨by simp, rfl⟩ hcons) next) fun taken stars hstars _ => takes_pure ?_
  obtain ⟨first, _, last, hfirst, ⟨_, a, us, rest, ⟨t, ht, rfl, rfl⟩, ⟨hmarks, hcount⟩, rfl, rfl⟩,
    hlast, rfl⟩ := hstars
  refine ⟨?_, by simp [hfirst, hlast, ht, hcount]⟩
  rw [List.nil_append, List.forall_mem_append, List.forall_mem_singleton, List.forall_mem_cons]
  exact ⟨⟨isMark_of hfirst rfl, List.forall_mem_cons.mpr ⟨isMark_of ht rfl, hmarks⟩⟩,
    isMark_of hlast rfl⟩

lemma takes_arrayType (h : DeeperLays d) : Takes false [] (arrayType d) TypeSpelled := by
  intro next
  refine takes_expect fun first hfirst next => ?_
  refine takes_part (takes_dimensions next) fun ts dims hts _ => ?_
  refine takes_expect fun middle hmiddle next =>
    takes_part (takes_typeOperand h next) fun us element hus _ => ?_
  exact takes_pure (.array hfirst hts hmiddle hus)

lemma lays_ty (h : DeeperLays d) : Lays d.ty fun ty => [.ty ty] :=
  fun next => (h.ty next).imp fun _ _ hty => .of_spelling (.ty hty)

/-- A type that cannot be read is left out, and the colon before it is next. -/
lemma laysLoosely_typeAfterColon (h : DeeperLays d) :
    LaysLoosely (optionalType d) fun ty => ty.toList.map .ty := by
  have hread : Takes false [] (do let _ ← expect .colon; d.ty) fun ts ty => Woven ts [.ty ty] := by
    intro next
    refine takes_expect fun colon hcolon next => (lays_ty h next).frame.imp fun taken ty hty => ?_
    obtain ⟨ts, hty, rfl⟩ := hty
    exact .mark (isMark_of hcolon rfl) hty
  refine takes_optional hread (fun tokens s e s' hbehind hrun => ?_) .nil fun _ _ hty => hty
  by_cases hat : AtColon tokens s
  · exact .inr ⟨rfl, hat⟩
  · obtain ⟨e', -, herror⟩ := expect_run_error hat
    rw [bind_run_error herror] at hrun
    cases hrun
    exact .inl (hbehind.expect_error herror)

lemma takes_constant : Takes false [] constant fun ts read =>
    ∃ t : Token, constantOf t.kind t.value = .ok read.1 ∧ read.2 = t.span ∧ ts = [t] := by
  intro next
  refine takes_errorHere fun e => takes_stay (fun _ _ => ⟨rfl, rfl⟩) fun _ =>
    takes_ite (fun _ => ?_) fun _ => takes_failWith _
  cases next with
  | none => exact takes_advance_end (takes_failWith _)
  | some token =>
    refine takes_advance fun _ => ?_
    dsimp only
    split
    next value hvalue => exact takes_pure ⟨token, hvalue, rfl, rfl⟩
    next => exact takes_failWith _

lemma takes_signedConstant {sign : Token} {literal : TokenKind} {negative : Bool}
    (hkind : sign.kind = kind) (hsign : isSign kind = true)
    (hnegative : isNegative kind = negative) :
    TakesAt false [] (some sign) (signedConstant literal negative)
      fun ts p => Woven ts [.node (.pattern p)] := by
  refine takes_advance fun _ => takes_lastSpan rfl (takes_errorHere fun e => ?_)
  refine takes_expect fun number hnumber _ => ?_
  split
  next value hvalue =>
    rw [← hkind] at hsign hnegative
    refine takes_newSite fun id => takes_pure (.of_node (.of_spelling (.signed hsign ?_))
      ⟨startsAt_head rfl, stopsAt_last rfl⟩)
    rw [signedText, hnegative, hnumber, hvalue]
  next => exact takes_failWith _

lemma lays_simplePattern (h : DeeperLays d) :
    Lays (simplePattern d) fun p => [.node (.pattern p)] := by
  have hconstant : Lays (do
      let read ← constant
      return Pattern.const (← newSite read.2) read.1) fun p => [.node (.pattern p)] := by
    intro next
    refine takes_part (takes_constant next) fun ts read hread _ => takes_newSite fun id => ?_
    obtain ⟨t, hvalue, hspan, rfl⟩ := hread
    exact takes_pure (woven_leaf (.matched hvalue) hspan)
  intro next
  refine takes_peekKind ?_
  cases next with
  | none => exact takes_unexpected _
  | some token =>
    dsimp only [Option.map_some]
    split
    next => exact lays_between rfl rfl h.pattern _
    next =>
      refine takes_one takesOne_genid fun t ht _ => takes_newSite fun id => takes_pure ?_
      exact woven_leaf (.name (.inl ht)) rfl
    next =>
      refine takes_one takesOne_conid fun t ht _ => takes_newSite fun id => takes_pure ?_
      exact woven_leaf (.name (.inr ht)) rfl
    next hkind => exact takes_signedConstant (Option.some.inj hkind) rfl rfl
    next hkind => exact takes_signedConstant (Option.some.inj hkind) rfl rfl
    next hkind => exact takes_signedConstant (Option.some.inj hkind) rfl rfl
    next hkind => exact takes_signedConstant (Option.some.inj hkind) rfl rfl
    next => exact hconstant _
    next => exact hconstant _
    next => exact hconstant _
    next => exact hconstant _
    next => exact hconstant _
    next => exact takes_unexpected _

lemma lays_pattern (h : DeeperLays d) : Lays (pattern d) fun p => [.node (.pattern p)] := by
  intro next
  refine takes_isAt fun _ => takes_ite (fun _ => ?_) fun _ => lays_simplePattern h _
  refine takes_one takesOne_conid fun t ht next => ?_
  refine takes_lastPart (lays_many rfl (lays_simplePattern h) next) (List.cons_ne_nil _ _)
    fun ts args hargs id last hlast => ?_
  exact .of_node ((Woven.nil.thenName (.inr ht)).append hargs)
    ⟨startsAt_head rfl, stopsAt_last hlast⟩

lemma lays_wholeExpr (h : DeeperLays d) : Lays (wholeExpr d) fun e => [.node (.expr e)] :=
  h.exprFrom _

lemma lays_exprList (h : DeeperLays d) : Lays (exprList d) (List.map fun e => .node (.expr e)) :=
  lays_separated rfl rfl (lays_wholeExpr h)

lemma lays_param (h : DeeperLays d) : Lays (param d) fun p => [.node (.param p)] := by
  intro next
  refine takes_isAt fun _ => takes_ite (fun _ => ?_) fun _ => ?_
  · refine takes_one takesOne_genid fun t ht _ => takes_newSite fun id => takes_pure ?_
    exact woven_leaf (.name (.inl ht)) rfl
  · refine takes_one (takesOne_label _ (takesOne_expect _)) fun start hstart _ => ?_
    refine takes_one takesOne_genid fun t ht _ => takes_expect fun colon hcolon next => ?_
    refine takes_part (lays_ty h next) fun ts ty hty _ => takes_expect fun stop hstop _ => ?_
    refine takes_newSite fun id => takes_pure (.of_node ?_
      ⟨startsAt_head rfl, stopsAt_last List.getLast?_concat⟩)
    exact (((Woven.nil.thenMark hstart rfl).thenName (.inl ht)).thenMark hcolon rfl
      |>.append hty).thenMark hstop rfl

lemma laysLoosely_mutableDef (h : DeeperLays d) :
    LaysLoosely (mutableDef d) fun d => [.node (.definition d)] := by
  intro next
  refine takes_expect fun start hstart _ => takes_one takesOne_genid fun t ht next => ?_
  have hhead := (Woven.nil.thenMark hstart rfl).thenName (.inl ht)
  refine takes_isAt fun _ => takes_ite (fun _ => ?_) fun _ => ?_
  · refine takes_part (lays_between rfl rfl (lays_exprList h) next) fun ts dims hdims next => ?_
    refine takes_lastPart (laysLoosely_typeAfterColon h next) (List.cons_ne_nil _ _)
      fun us ty hty id last hlast => ?_
    exact .of_node ((hhead.append hdims).append hty) ⟨startsAt_head rfl, stopsAt_last hlast⟩
  · refine takes_lastPart (laysLoosely_typeAfterColon h next) (List.cons_ne_nil _ _)
      fun us ty hty id last hlast => ?_
    exact .of_node (hhead.append hty) ⟨startsAt_head rfl, stopsAt_last hlast⟩

lemma lays_functionDef (h : DeeperLays d) :
    Lays (functionDef d) fun d => [.node (.definition d)] := by
  intro next
  refine takes_one (takesOne_label _ takesOne_genid) fun t ht next => ?_
  refine takes_part (lays_many rfl (lays_param h) next) fun ts params hparams next => ?_
  refine takes_part_loose (laysLoosely_typeAfterColon h next) (fun us ty hty _ => ?_)
    fun _ _ _ _ => takesNone_expect rfl
  refine takes_expect fun t' ht' next => ?_
  refine takes_part (lays_wholeExpr h next) fun vs body hbody _ => takes_newSite fun id => ?_
  have hwoven := (((Woven.nil.thenName (.inl ht)).append hparams).append hty).thenMark ht' rfl
    |>.append hbody
  split
  next =>
    exact takes_pure (.of_node hwoven
      ⟨startsAt_head rfl, .inr ⟨_, List.getLast?_concat, rfl⟩⟩)
  next =>
    exact takes_pure (.of_node hwoven
      ⟨startsAt_head rfl, .inr ⟨_, List.getLast?_concat, rfl⟩⟩)

lemma laysLoosely_letDef (h : DeeperLays d) :
    LaysLoosely (letDef d) fun d => [.node (.definition d)] := by
  intro next
  exact takes_isAt fun _ =>
    takes_ite (fun _ => laysLoosely_mutableDef h _) fun _ => (lays_functionDef h _).loosen

lemma lays_optionalRec : Lays (optional (expect .kwRec)) fun _ => [] := by
  refine takes_optional (takesOne_expect _ [])
    (fun tokens s e s' hbehind hrun => .inl (hbehind.expect_error hrun)) .nil ?_
  rintro ts a ⟨t, ht, rfl, rfl⟩
  exact .mark (isMark_of ht rfl) .nil

lemma laysLoosely_letGroup (h : DeeperLays d) :
    LaysLoosely (letGroup d) fun g => [.node (.letGroup g)] := by
  intro next
  refine takes_expect fun start hstart next => ?_
  refine takes_part (lays_optionalRec next) fun ts isRec hts next => ?_
  refine takes_lastPart (takes_woven_separated rfl rfl (laysLoosely_letDef h) next)
    (List.cons_ne_nil _ _) fun us defs hdefs id last hlast => ?_
  exact .of_node (((Woven.nil.thenMark hstart rfl).append hts).append hdefs)
    ⟨startsAt_head rfl, stopsAt_last hlast⟩

lemma lays_variableOrElement (h : DeeperLays d) :
    Lays (variableOrElement d) fun e => [.node (.expr e)] := by
  intro next
  refine takes_one takesOne_genid fun t ht next => ?_
  refine takes_isAt fun _ => takes_ite (fun _ => ?_) fun _ => ?_
  · refine takes_part (lays_between rfl rfl (lays_exprList h) next) fun ts args hargs _ => ?_
    refine takes_newSiteFrom (List.cons_ne_nil _ _) fun id last hlast => takes_pure ?_
    exact .of_node ((Woven.nil.thenName (.inl ht)).append hargs)
      ⟨startsAt_head rfl, stopsAt_last hlast⟩
  · exact takes_newSite fun id => takes_pure (woven_leaf (.name (.inl ht)) rfl)

lemma lays_dereference (h : DeeperLays d) : Lays (dereference d) fun e => [.node (.expr e)] := by
  intro next
  refine takes_expect fun start hstart next => takes_part (h.simple next) fun ts e he _ => ?_
  exact takes_newSite fun id => takes_pure (.of_node ((Woven.nil.thenMark hstart rfl).append he)
    ⟨startsAt_head rfl, .inr ⟨_, rfl, rfl⟩⟩)

lemma lays_parenthesized (h : DeeperLays d) :
    Lays (parenthesized d) fun e => [.node (.expr e)] := by
  intro next
  refine takes_expect fun start hstart next =>
    takes_isAt fun _ => takes_ite (fun _ => ?_) fun _ => ?_
  · refine takes_expect fun stop hstop _ => takes_newSite fun id => takes_pure ?_
    exact .of_node (.of_spelling (.unit hstart hstop)) ⟨startsAt_head rfl, stopsAt_last rfl⟩
  · refine takes_part (lays_wholeExpr h next) fun ts e he _ => takes_expect fun stop hstop _ => ?_
    exact takes_pure (((Woven.nil.thenMark hstart rfl).append he).thenMark hstop rfl)

lemma lays_simpleExpr (h : DeeperLays d) : Lays (simpleExpr d) fun e => [.node (.expr e)] := by
  intro next
  refine takes_peekKind ?_
  split
  next => exact lays_variableOrElement h _
  next =>
    refine takes_one takesOne_conid fun t ht _ => takes_newSite fun id => takes_pure ?_
    exact woven_leaf (.name (.inr ht)) rfl
  next => exact lays_dereference h _
  next => exact lays_parenthesized h _
  next =>
    refine takes_ite (fun _ => ?_) fun _ => takes_unexpected _
    refine takes_part (takes_constant _) fun ts read hread _ => takes_newSite fun id => ?_
    obtain ⟨t, hvalue, hspan, rfl⟩ := hread
    exact takes_pure (woven_leaf (.const hvalue) hspan)
  next => exact takes_unexpected _

/-- Arguments take tokens only if there are any. -/
lemma takes_arguments (h : DeeperLays d) :
    Takes false [] (many startsSimple (simpleExpr d)) fun ts args =>
      Woven ts (args.map fun e => .node (.expr e)) ∧ (args = [] → ts = []) :=
  takes_many rfl (lays_simpleExpr h) ⟨.nil, fun _ => rfl⟩ fun _ _ _ _ ha has =>
    ⟨ha.append has.1, fun hnil => absurd hnil (List.cons_ne_nil _ _)⟩

lemma lays_variableOrCall (h : DeeperLays d) :
    Lays (variableOrCall d) fun e => [.node (.expr e)] := by
  intro next
  refine takes_one takesOne_genid fun t ht next => ?_
  refine takes_part (takes_arguments h next) fun ts args hargs _ => ?_
  obtain ⟨hwoven, hnone⟩ := hargs
  split
  next =>
    obtain rfl := hnone rfl
    exact takes_newSite fun id => takes_pure (woven_leaf (.name (.inl ht)) rfl)
  next =>
    refine takes_newSiteFrom (List.cons_ne_nil _ _) fun id last hlast => takes_pure ?_
    exact .of_node ((Woven.nil.thenName (.inl ht)).append hwoven)
      ⟨startsAt_head rfl, stopsAt_last hlast⟩

lemma lays_construction (h : DeeperLays d) :
    Lays (construction d) fun e => [.node (.expr e)] := by
  intro next
  refine takes_one takesOne_conid fun t ht next => ?_
  refine takes_part (takes_arguments h next) fun ts args hargs _ => ?_
  obtain ⟨hwoven, hnone⟩ := hargs
  split
  next =>
    obtain rfl := hnone rfl
    exact takes_newSite fun id => takes_pure (woven_leaf (.name (.inr ht)) rfl)
  next =>
    refine takes_newSiteFrom (List.cons_ne_nil _ _) fun id last hlast => takes_pure ?_
    exact .of_node ((Woven.nil.thenName (.inr ht)).append hwoven)
      ⟨startsAt_head rfl, stopsAt_last hlast⟩

lemma lays_arrayDim : Lays arrayDim fun e => [.node (.expr e)] := by
  have hnumber : Takes false [] dimensionNumber fun ts n =>
      (ts = [] ∧ n = 1) ∨
        ∃ t, t.kind = .intLiteral ∧ Text.int64? t.value.toList = some n ∧ ts = [t] := by
    intro next
    refine takes_isAt fun _ => takes_ite (fun _ => ?_) fun _ => takes_pure (.inl ⟨rfl, rfl⟩)
    refine takes_errorHere fun e => takes_expect fun t ht _ => ?_
    split
    next n hn => exact takes_pure (.inr ⟨t, ht, hn, rfl⟩)
    next => exact takes_failWith _
  intro next
  refine takes_expect fun start hstart next => takes_part (hnumber next) fun ts n hn _ => ?_
  refine takes_one takesOne_genid fun t ht _ => takes_newSite fun id => takes_pure ?_
  rcases hn with ⟨rfl, rfl⟩ | ⟨number, hkind, hvalue, rfl⟩
  · exact .of_node (.of_spelling (.dim hstart ht)) ⟨startsAt_head rfl, stopsAt_last rfl⟩
  · exact .of_node (.of_spelling (.dimAt hstart hkind hvalue ht))
      ⟨startsAt_head rfl, stopsAt_last rfl⟩

lemma lays_newRef (h : DeeperLays d) : Lays (newRef d) fun e => [.node (.expr e)] := by
  intro next
  refine takes_expect fun start hstart next => takes_part (lays_ty h next) fun ts ty hty _ => ?_
  refine takes_newSiteFrom (List.cons_ne_nil _ _) fun id last hlast => takes_pure ?_
  exact .of_node ((Woven.nil.thenMark hstart rfl).append hty)
    ⟨startsAt_head rfl, stopsAt_last hlast⟩

lemma isMark_direction (h : [TokenKind.kwTo, .kwDownto].contains kind = true) :
    isMark kind = true := by
  rcases List.mem_cons.mp (List.contains_iff_mem.mp h) with rfl | hmem
  · rfl
  · rw [List.mem_singleton.mp hmem]
    rfl

lemma lays_forLoop (h : DeeperLays d) : Lays (forLoop d) fun e => [.node (.expr e)] := by
  intro next
  refine takes_expect fun start hstart _ => takes_one takesOne_genid fun t ht _ => ?_
  refine takes_expect fun equals hequals next => ?_
  refine takes_part (lays_wholeExpr h next) fun ts first hfirst _ => ?_
  refine takes_one (takesOne_tokenWhere _ _) fun direction hdirection next => ?_
  refine takes_part (lays_wholeExpr h next) fun us last hlast _ => ?_
  refine takes_expect fun begins hbegins next => ?_
  refine takes_part (lays_wholeExpr h next) fun vs body hbody _ => ?_
  refine takes_expect fun ends hends _ => ?_
  refine takes_newSiteFrom (List.cons_ne_nil _ _) fun id stop hstop => takes_pure ?_
  refine .of_node ?_ ⟨startsAt_head rfl, stopsAt_last hstop⟩
  have hcounter := ((Woven.nil.thenMark hstart rfl).thenName (.inl ht)).thenMark hequals rfl
  have hrange := ((hcounter.append hfirst).thenMark rfl (isMark_direction hdirection)).append hlast
  exact ((hrange.thenMark hbegins rfl).append hbody).thenMark hends rfl

lemma lays_whileLoop (h : DeeperLays d) : Lays (whileLoop d) fun e => [.node (.expr e)] := by
  intro next
  refine takes_expect fun start hstart next => ?_
  refine takes_part (lays_wholeExpr h next) fun ts condition hcondition _ => ?_
  refine takes_expect fun begins hbegins next => ?_
  refine takes_part (lays_wholeExpr h next) fun us body hbody _ => ?_
  refine takes_expect fun ends hends _ => ?_
  refine takes_newSiteFrom (List.cons_ne_nil _ _) fun id stop hstop => takes_pure ?_
  have hhead := (Woven.nil.thenMark hstart rfl).append hcondition
  exact .of_node (((hhead.thenMark hbegins rfl).append hbody).thenMark hends rfl)
    ⟨startsAt_head rfl, stopsAt_last hstop⟩

lemma lays_conditional (h : DeeperLays d) : Lays (conditional d) fun e => [.node (.expr e)] := by
  intro next
  refine takes_expect fun start hstart next => ?_
  refine takes_part (lays_wholeExpr h next) fun ts condition hcondition _ => ?_
  refine takes_expect fun thens hthens next => ?_
  refine takes_part (h.exprFrom _ next) fun us positive hpositive _ => ?_
  have hwoven := ((Woven.nil.thenMark hstart rfl).append hcondition).thenMark hthens rfl
    |>.append hpositive
  refine takes_isAt fun _ => takes_ite (fun _ => ?_) fun _ => ?_
  · refine takes_expect fun elses helses next => ?_
    refine takes_lastPart (h.exprFrom _ next) (List.cons_ne_nil _ _)
      fun vs negative hnegative id stop hstop => ?_
    exact .of_node ((hwoven.thenMark helses rfl).append hnegative)
      ⟨startsAt_head rfl, stopsAt_last hstop⟩
  · refine takes_newSiteFrom (List.cons_ne_nil _ _) fun id stop hstop => takes_pure ?_
    exact .of_node hwoven ⟨startsAt_head rfl, stopsAt_last hstop⟩

lemma lays_clause (h : DeeperLays d) : Lays (clause d) fun c => [.node (.clause c)] := by
  intro next
  refine takes_part (h.pattern next) fun ts p hp _ => takes_expect fun arrow harrow next => ?_
  refine takes_part (lays_wholeExpr h next) fun us body hbody _ => takes_newSite fun id => ?_
  exact takes_pure (.of_node ((hp.thenMark harrow rfl).append hbody)
    ⟨.inr ⟨_, rfl, rfl⟩, .inr ⟨_, rfl, rfl⟩⟩)

lemma lays_matchWith (h : DeeperLays d) : Lays (matchWith d) fun e => [.node (.expr e)] := by
  intro next
  refine takes_expect fun start hstart next => ?_
  refine takes_part (lays_wholeExpr h next) fun ts scrutinee hscrutinee _ => ?_
  refine takes_expect fun withs hwiths next => ?_
  refine takes_part (lays_separated rfl rfl (lays_clause h) next) fun us clauses hclauses _ => ?_
  refine takes_expect fun ends hends _ => ?_
  refine takes_newSiteFrom (List.cons_ne_nil _ _) fun id stop hstop => takes_pure ?_
  have hhead := ((Woven.nil.thenMark hstart rfl).append hscrutinee).thenMark hwiths rfl
  exact .of_node ((hhead.append hclauses).thenMark hends rfl)
    ⟨startsAt_head rfl, stopsAt_last hstop⟩

lemma lays_letIn (h : DeeperLays d) : Lays (letIn d) fun e => [.node (.expr e)] := by
  intro next
  refine takes_part_loose (laysLoosely_letGroup h next) (fun ts group hgroup _ => ?_)
    fun _ _ _ _ => takesNone_expect rfl
  refine takes_expect fun t ht next => ?_
  refine takes_part (lays_wholeExpr h next) fun us body hbody _ => takes_newSite fun id => ?_
  exact takes_pure (.of_node ((hgroup.thenMark ht rfl).append hbody)
    ⟨.inr ⟨_, rfl, rfl⟩, .inr ⟨_, rfl, rfl⟩⟩)

lemma lays_primary (h : DeeperLays d) : Lays (primary d) fun e => [.node (.expr e)] := by
  intro next
  refine takes_peekKind ?_
  split
  next =>
    exact takes_stay (fun _ _ => ⟨rfl, rfl⟩) fun _ =>
      takes_ite (fun _ => lays_simpleExpr h _) fun _ => lays_variableOrCall h _
  next => exact lays_construction h _
  next => exact lays_arrayDim _
  next => exact lays_newRef h _
  next => exact lays_between rfl rfl (lays_wholeExpr h) _
  next => exact lays_forLoop h _
  next => exact lays_whileLoop h _
  next => exact lays_conditional h _
  next => exact lays_matchWith h _
  next => exact lays_letIn h _
  next => exact lays_simpleExpr h _

lemma isSign_or_isMark_unary {op : UnaryOp} (h : UnaryOp.ofToken? kind = some op) :
    isSign kind = true ∨ isMark kind = true := by
  revert h
  cases kind <;> simp [UnaryOp.ofToken?, isSign, isMark, startsConstant]

lemma isSign_or_isMark_binary {op : BinaryOp} (h : BinaryOp.ofToken? kind = some op) :
    isSign kind = true ∨ isMark kind = true := by
  revert h
  cases kind <;> simp [BinaryOp.ofToken?, isSign, isMark, startsConstant]

/-- An operator before an expression. -/
lemma woven_operator {e : Expr} (hop : isSign t.kind = true ∨ isMark t.kind = true)
    (h : Woven ts [.node (.expr e)]) : Woven (t :: ts) [.node (.expr e)] := by
  rcases hop with hsign | hmark
  · exact .sign hsign h
  · exact .mark hmark h

/-- After its sign the least integer takes its digits. -/
lemma takes_leastInteger? {sign : Token} (hsign : sign.kind = .minus) :
    Takes false [sign] (leastInteger? sign.span) fun ts least =>
      match least with
      | some e => Woven ts [.node (.expr e)]
      | none => ts = [sign] := by
  intro next
  refine takes_peek ?_
  cases next with
  | none => exact takes_pure rfl
  | some t =>
    refine takes_ite (fun hc => ?_) fun _ => takes_pure rfl
    split
    next n hn =>
      obtain ⟨hkind, hnone⟩ := Bool.and_eq_true_iff.mp hc
      refine takes_advance fun _ => takes_newSite fun id => takes_pure ?_
      exact .of_node (.of_spelling (.least hsign (beq_iff_eq.mp hkind)
        (Option.isNone_iff_eq_none.mp hnone) hn)) ⟨startsAt_head rfl, stopsAt_last rfl⟩
    next => exact takes_pure rfl

lemma kind_of_minus (h : UnaryOp.ofToken? kind = some .minus) : kind = .minus := by
  revert h
  cases kind <;> simp [UnaryOp.ofToken?]

lemma takes_prefixed (h : DeeperLays d) {op : UnaryOp} (hop : UnaryOp.ofToken? t.kind = some op) :
    Takes false [t] (prefixed d op) fun ts e => Woven ts [.node (.expr e)] := by
  have hoperand : Takes false [t] (do
      let operand ← d.operand
      return Expr.unary (← newSite (t.span.merge operand.site.span)) op operand)
        fun ts e => Woven ts [.node (.expr e)] := by
    intro next
    refine takes_part (h.operand next) fun us e he _ => takes_newSite fun id => ?_
    exact takes_pure (.of_node (woven_operator (isSign_or_isMark_unary hop) he)
      ⟨startsAt_head rfl, .inr ⟨.expr e, rfl, rfl⟩⟩)
  intro next
  have hlast : [t].getLast? = some t := rfl
  refine takes_lastSpan hlast (takes_ite (fun hminus => ?_) fun _ => ?_)
  · subst hminus
    refine takes_bind (takes_leastInteger? (kind_of_minus hop) _) fun ts least hleast => ?_
    cases least with
    | some e => exact fun _ => takes_pure hleast
    | none =>
      obtain rfl := hleast
      exact hoperand
  · rw [pure_bind]
    exact hoperand next

lemma lays_unary (h : DeeperLays d) : Lays (unary d) fun e => [.node (.expr e)] := by
  intro next
  refine takes_peekKind ?_
  cases next with
  | none => exact lays_primary h _
  | some t =>
    dsimp only [Option.map_some]
    split
    next hkind => cases hkind
    next hkind =>
      refine takes_advance fun next => takes_lastSpan rfl ?_
      refine takes_part (h.operand next) fun us e he _ => takes_newSite fun id => takes_pure ?_
      exact .of_node ((Woven.nil.thenMark (Option.some.inj hkind) rfl).append he)
        ⟨startsAt_head rfl, .inr ⟨_, rfl, rfl⟩⟩
    next hkind =>
      cases hkind
      split
      next op hop => exact takes_advance (takes_prefixed h hop)
      next => exact lays_primary h _

/-- While operators are added to it, the left operand takes the tokens from the start on. -/
lemma takes_climbUpTo (h : DeeperLays d) (rank n : Nat) {left : Expr} (chained : Option Nat)
    (hleft : Woven ts [.node (.expr left)]) :
    Takes false ts (climbUpTo d rank n left chained) fun us e => Woven us [.node (.expr e)] := by
  induction n generalizing ts left chained with
  | zero => exact fun _ => takes_pure hleft
  | succ n ih =>
    intro next
    refine takes_peekKind ?_
    cases next with
    | none => exact takes_pure hleft
    | some t =>
      dsimp only [Option.map_some, Option.bind_some]
      split
      next => exact takes_pure hleft
      next op hop =>
        refine takes_ite (fun _ => takes_pure hleft) fun _ => takes_ite (fun _ => ?_) fun _ => ?_
        · exact takes_errorHere fun _ => takes_failWith _
        · refine takes_advance fun next => ?_
          refine takes_part (h.exprFrom _ next) fun us right hright _ => ?_
          have hwoven : Woven (ts ++ [t] ++ us) [.node (.expr left), .node (.expr right)] := by
            rw [List.append_assoc]
            exact hleft.append (woven_operator (isSign_or_isMark_binary hop) hright)
          refine takes_newSite fun id => ih _ ?_ _
          exact .of_node hwoven ⟨.inr ⟨.expr left, rfl, rfl⟩, .inr ⟨.expr right, rfl, rfl⟩⟩

lemma lays_exprFrom (h : DeeperLays d) (rank : Nat) :
    Lays (exprFrom d rank) fun e => [.node (.expr e)] := by
  intro next
  refine takes_part (lays_unary h next) fun ts left hleft _ => ?_
  refine takes_stay (fun _ _ => ⟨rfl, rfl⟩) fun n => ?_
  exact takes_climbUpTo h rank n none hleft _

lemma deeper_lays (levels : Nat) : DeeperLays (deeper levels) := by
  induction levels with
  | zero =>
    exact ⟨fun _ _ => takes_tooDeep, fun _ => takes_tooDeep, fun _ => takes_tooDeep,
      fun _ => takes_tooDeep, fun _ => takes_tooDeep, fun _ => takes_tooDeep⟩
  | succ levels ih =>
    rw [deeper_succ]
    exact ⟨lays_exprFrom ih, lays_unary ih, lays_simpleExpr ih, takes_arrowType ih,
      takes_arrayType ih, lays_pattern ih⟩

lemma lays_constructorDef (h : DeeperLays d) :
    Lays (constructorDef d) fun c => [.node (.constructor c)] := by
  intro next
  refine takes_one takesOne_conid fun t ht next => ?_
  refine takes_isAt fun _ => takes_ite (fun _ => ?_) fun _ => ?_
  · refine takes_expect fun t' ht' next => ?_
    refine takes_part (lays_ty h next) fun ts first hfirst next => ?_
    refine takes_lastPart (lays_many rfl (lays_ty h) next) (List.cons_ne_nil _ _)
      fun us rest hrest id last hlast => ?_
    have hname := (Woven.nil.thenName (.inr ht)).thenMark ht' rfl
    exact .of_node ((hname.append hfirst).append hrest) ⟨startsAt_head rfl, stopsAt_last hlast⟩
  · refine takes_newSiteFrom (List.cons_ne_nil _ _) fun id last hlast => takes_pure ?_
    exact .of_node (Woven.nil.thenName (.inr ht)) ⟨startsAt_head rfl, stopsAt_last hlast⟩

lemma takesOne_typeName :
    TakesOne typeName (· ∈ typeNameKinds) fun token => (token.value, token.span) := by
  intro before next
  refine (takesOne_map _ (takesOne_tokenWhere _ _) before next).imp fun taken a ha => ?_
  obtain ⟨t, ht, h⟩ := ha
  exact ⟨t, List.contains_iff_mem.mp ht, h⟩

lemma lays_typeDef (h : DeeperLays d) : Lays (typeDef d) fun d => [.node (.typeDef d)] := by
  intro next
  refine takes_one takesOne_typeName fun t ht _ => takes_expect fun t' ht' next => ?_
  refine takes_lastPart (lays_separated rfl rfl (lays_constructorDef h) next) (List.cons_ne_nil _ _)
    fun ts cs hcs id last hlast => ?_
  exact .of_node (((Woven.of_spelling (.typeName ht)).thenMark ht' rfl).append hcs)
    ⟨startsAt_head rfl, stopsAt_last hlast⟩

lemma lays_typeGroup (h : DeeperLays d) : Lays (typeGroup d) fun g => [.node (.typeGroup g)] := by
  intro next
  refine takes_expect fun start hstart next => ?_
  refine takes_part (lays_separated rfl rfl (lays_typeDef h) next) fun ts ds hds _ => ?_
  refine takes_newSiteFrom (List.cons_ne_nil _ _) fun id last hlast => ?_
  refine takes_stay (fun _ _ => ⟨rfl, rfl⟩) fun _ => takes_pure ?_
  exact .of_node ((Woven.nil.thenMark hstart rfl).append hds)
    ⟨startsAt_head rfl, stopsAt_last hlast⟩

lemma laysLoosely_definition (h : DeeperLays d) :
    LaysLoosely (definition d) fun d => [.node (definitionNode d)] := by
  intro next
  refine takes_peekKind ?_
  split
  next => exact takes_part (lays_typeGroup h _) fun ts g hg _ => takes_pure hg
  next =>
    exact takes_part_loose (laysLoosely_letGroup h _) (fun ts g hg _ => takes_pure hg)
      fun _ ts g hg => takesNone_pure hg
  next => exact takes_errorHere fun _ => takes_failWith _

/-- Without an error the tokens that are left are woven of the definitions that are read. -/
lemma Rounds.woven {tokens : Array Token} {s s' : ParserState} {attempts : List Attempt}
    (h : Rounds tokens s attempts s') (hclean : errorsOf attempts = []) :
    Woven (tokens.toList.drop s.index)
      ((definitionsOf attempts).map fun d => .node (definitionNode d)) := by
  induction h with
  | done hend =>
    rw [hend, ← Array.length_toList, List.drop_length]
    exact .nil
  | read hsize hrun hrest ih =>
    obtain ⟨ts, hts, -, hwoven⟩ := laysLoosely_definition (deeper_lays maxNesting) _ _ _ _ _ _
      (since_nil _ _) (behind_of_none rfl) rfl hrun
    have hahead := hts.ahead
    dsimp only at hahead
    rw [hahead]
    exact hwoven.append (ih hclean)
  | failed => cases hclean

/-- The tokens of a program are woven of its definitions. -/
lemma woven_of_parse {tokens : List Token} {program : Program}
    (h : (parse tokens).program = some program) :
    Woven tokens (program.definitions.map fun d => .node (definitionNode d)) := by
  obtain ⟨attempts, s, hrounds, hclean, rfl⟩ := rounds_of_program h
  exact hrounds.woven hclean

/-- The tokens and the program of a text. -/
def programOf? (source : String) : Option (List Token × Program) :=
  match Token.lex source with
  | .ok tokens => (parse tokens).program.map fun program => (tokens, program)
  | .error _ => none

lemma exists_of_programOf? {source : String} {tokens : List Token} {program : Program}
    (h : programOf? source = some (tokens, program)) :
    Token.lex source = .ok tokens ∧ (parse tokens).program = some program := by
  unfold programOf? at h
  split at h
  next tokens' hlex =>
    obtain ⟨program', hparse, hpair⟩ := Option.map_eq_some_iff.mp h
    cases hpair
    exact ⟨hlex, hparse⟩
  next => cases h

end Llama.Proofs
