import Llama.Proofs.BareTree
import Llama.Proofs.NestedLists
import Llama.Proofs.PostOrder
import Llama.Proofs.TypeText
import Llama.Tree.Printer

/-!
# Trees as nested lists

The text of a tree is that of a nested list, which has the parts of the tree as its items. The
items tell the tree: heads, names and numbers of items tell what a list is, and the items of a
type make up its text, from which it can be read back.
-/

namespace Llama.Proofs

open Printer Lexeme

lemma isPlain_of_check {text : List Char}
    (h : (!text.isEmpty && text.all (fun c => !isDelimiter c) && shapeOf text == .word) = true) :
    IsPlain text := by
  simp only [Bool.and_eq_true, Bool.not_eq_true', List.all_eq_true, beq_iff_eq] at h
  exact ⟨fun hnil => by simp [hnil] at h, h.1.2, h.2⟩

lemma isDelimiter_of_isNameChar {c : Char} (h : isNameChar c = true) : isDelimiter c = false := by
  have hother : ∀ d, isNameChar d = false → c ≠ d := by
    rintro d hd rfl
    rw [h] at hd
    cases hd
  have hnone : ∀ d ∈ [' ', '(', ')', '[', ']', '\n'], c ≠ d := by
    intro d hd
    simp only [List.mem_cons, List.not_mem_nil, or_false] at hd
    rcases hd with rfl | rfl | rfl | rfl | rfl | rfl <;> exact hother _ (by decide)
  simp [isDelimiter, hnone]

lemma isPlain_letters {c : Char} {tail : List Char} (hc : c.isAlpha = true)
    (htail : ∀ d ∈ tail, isNameChar d = true) : IsPlain (c :: tail) := by
  have hname : isNameChar c = true := by simp [isNameChar, Char.isAlphanum, hc]
  have hother : ∀ d, d.isAlpha = false → c ≠ d := by
    rintro d hd rfl
    rw [hc] at hd
    cases hd
  have hliteral := startsLiteral_of_isAlpha hc
  simp only [startsLiteral, Bool.or_eq_false_iff] at hliteral
  refine ⟨List.cons_ne_nil _ _, List.forall_mem_cons.mpr ⟨isDelimiter_of_isNameChar hname,
    fun d hd => isDelimiter_of_isNameChar (htail d hd)⟩, ?_⟩
  simp [shapeOf, hother, hliteral.1.1]

lemma isPlain_name {kind : TokenKind} {name : String} (hkind : kind = .genid ∨ kind = .conid)
    (h : IsLexeme kind name.toList) : IsPlain name.toList := by
  obtain ⟨c, tail, htext, hfirst, htail⟩ := h.name hkind
  rw [htext]
  refine isPlain_letters ?_ htail
  split at hfirst
  · exact isAlpha_iff.mpr (.inr hfirst)
  · exact isAlpha_iff.mpr (.inl hfirst)

/-- The text is that of a proper nested list. -/
def Writes (text : String) (item : Sexp) : Prop := item.Proper ∧ item.render = text.toList

/-- The texts, with a space before each, are that of proper items. -/
def WritesAll (texts : List String) (items : List Sexp) : Prop :=
  Sexp.AllProper items ∧ Sexp.renderRest items = texts.flatMap fun text => ' ' :: text.toList

section

variable {text : String} {texts texts' : List String} {item : Sexp} {items items' : List Sexp}

lemma writes_word (h : IsPlain text.toList) : Writes text (.word text) := ⟨h, rfl⟩

lemma writesAll_nil : WritesAll [] [] := ⟨trivial, rfl⟩

lemma WritesAll.cons (h : Writes text item) (hrest : WritesAll texts items) :
    WritesAll (text :: texts) (item :: items) :=
  ⟨⟨h.1, hrest.1⟩, by rw [Sexp.renderRest, h.2, hrest.2, List.flatMap_cons]; rfl⟩

lemma allProper_append :
    Sexp.AllProper (items ++ items') ↔ Sexp.AllProper items ∧ Sexp.AllProper items' := by
  induction items with
  | nil => simp [Sexp.AllProper]
  | cons item items ih => simp [Sexp.AllProper, ih, and_assoc]

lemma renderRest_append :
    Sexp.renderRest (items ++ items') = Sexp.renderRest items ++ Sexp.renderRest items' := by
  induction items with
  | nil => rfl
  | cons item items ih => simp [Sexp.renderRest, ih]

lemma WritesAll.append (h : WritesAll texts items) (h' : WritesAll texts' items') :
    WritesAll (texts ++ texts') (items ++ items') := by
  refine ⟨allProper_append.mpr ⟨h.1, h'.1⟩, ?_⟩
  rw [renderRest_append, h.2, h'.2, List.flatMap_append]

lemma writesAll_map {α : Type} {as : List α} {f : α → String} {g : α → Sexp}
    (h : ∀ a ∈ as, Writes (f a) (g a)) : WritesAll (as.map f) (as.map g) := by
  induction as with
  | nil => exact writesAll_nil
  | cons a as ih =>
    obtain ⟨ha, has⟩ := List.forall_mem_cons.mp h
    exact .cons ha (ih has)

lemma toList_intercalate_cons (separator text next : String) (texts : List String) :
    (separator.intercalate (text :: next :: texts)).toList =
      text.toList ++ (separator.toList ++ (separator.intercalate (next :: texts)).toList) := by
  rw [String.toList_intercalate, String.toList_intercalate, List.map_cons, List.map_cons,
    List.intercalate_cons_cons, List.append_assoc]

lemma flatMap_space (text : String) (texts : List String) :
    (text :: texts).flatMap (fun text => ' ' :: text.toList) =
      ' ' :: (" ".intercalate (text :: texts)).toList := by
  induction texts generalizing text with
  | nil => simp
  | cons next texts ih =>
    rw [List.flatMap_cons, ih, toList_intercalate_cons]
    rfl

lemma WritesAll.renderItems (h : WritesAll texts items) :
    Sexp.renderItems items = (" ".intercalate texts).toList := by
  have hrest := h.2
  cases items with
  | nil =>
    cases texts with
    | nil => rfl
    | cons text texts =>
      rw [flatMap_space] at hrest
      cases hrest
  | cons item items =>
    cases texts with
    | nil => cases hrest
    | cons text texts =>
      rw [flatMap_space] at hrest
      exact (List.cons.inj hrest).2

lemma writes_listed (h : WritesAll texts items) : Writes (listed texts) (.list items) := by
  refine ⟨h.1, ?_⟩
  rw [Sexp.render, h.renderItems]
  simp [listed]

lemma writes_bracketed (h : WritesAll texts items) :
    Writes (bracketed texts) (.bracket items) := by
  refine ⟨h.1, ?_⟩
  rw [Sexp.render, h.renderItems]
  simp [bracketed]

/-- Texts that a longer text joins with spaces. -/
lemma WritesAll.joined (h : WritesAll texts items)
    (htext : texts.flatMap (fun text => ' ' :: text.toList) = ' ' :: text.toList) :
    WritesAll [text] items := by
  exact ⟨h.1, by rw [h.2, htext, List.flatMap_singleton]⟩

end

/-- Items in parentheses if asked to. -/
def parenItems (needed : Bool) (items : List Sexp) : List Sexp :=
  if needed then [.list items] else items

/-- The stars of an array of at least one dimension. -/
def starItems : Nat → List Sexp
  | 0 => [.word "*"]
  | k + 1 => .word "*," :: starItems k

/-- The dimensions of an array; one is not mentioned. -/
def dimensionItems (dims : Nat) : List Sexp :=
  if dims = 1 then [] else [.bracket (starItems (dims - 1))]

/-- The items that make up the text of a type. -/
def tyItems : Ty → List Sexp
  | .array element dims =>
    .word "array" :: (dimensionItems dims ++
      .word "of" :: parenItems (isCompound element) (tyItems element))
  | .func source target =>
    parenItems source.isFunc (tyItems source) ++ .word "->" :: tyItems target
  | .ref inner => parenItems (isCompound inner) (tyItems inner) ++ [.word "ref"]
  | ty => [.word ty.text]

/-- A type as one item. -/
def typeSexp (ty : Ty) : Sexp :=
  if ty.text.toList.contains ' ' then .list (tyItems ty) else .word ty.text

/-- The arrays of a type have a dimension and its user types have names as in a source, none that
of a built-in type. -/
structure NamedType (ty : Ty) : Prop where
  writable : tyWritable ty
  names : ∀ name ∈ userNames ty, IsLexeme .genid name.toList

lemma writesAll_parenthesized {text : String} {items : List Sexp} (needed : Bool)
    (h : WritesAll [text] items) :
    WritesAll [Ty.parenthesized needed text] (parenItems needed items) := by
  cases needed with
  | false => exact h
  | true =>
    have htext : Ty.parenthesized true text = listed [text] := by simp [listed, Ty.parenthesized]
    rw [htext]
    exact .cons (writes_listed h) writesAll_nil

lemma renderRest_starItems (k : Nat) :
    Sexp.renderRest (starItems k) = ' ' :: Sexp.renderItems (starItems k) := by
  cases k <;> rfl

lemma renderItems_starItems (k : Nat) : Sexp.renderItems (starItems k) =
    (", ".intercalate (List.replicate (k + 1) "*")).toList := by
  induction k with
  | zero => rfl
  | succ k ih =>
    rw [starItems, Sexp.renderItems, renderRest_starItems, ih, List.replicate_succ]
    show _ = (", ".intercalate ("*" :: "*" :: List.replicate k "*")).toList
    rw [toList_intercalate_cons]
    rfl

lemma allProper_starItems (k : Nat) : Sexp.AllProper (starItems k) := by
  induction k with
  | zero => exact ⟨isPlain_of_check rfl, trivial⟩
  | succ k ih => exact ⟨isPlain_of_check rfl, ih⟩

lemma writes_stars (k : Nat) :
    Writes ("[" ++ ", ".intercalate (List.replicate (k + 1) "*") ++ "]")
      (.bracket (starItems k)) := by
  refine ⟨allProper_starItems k, ?_⟩
  rw [Sexp.render, renderItems_starItems]
  simp

lemma writesAll_word {text : String} (h : IsPlain text.toList) : WritesAll [text] [.word text] :=
  .cons (writes_word h) writesAll_nil

/-- The items of a type make up its text. -/
lemma writesAll_type {ty : Ty} (h : NamedType ty) : WritesAll [ty.text] (tyItems ty) := by
  induction ty with
  | bool => exact writesAll_word (isPlain_of_check rfl)
  | char => exact writesAll_word (isPlain_of_check rfl)
  | float => exact writesAll_word (isPlain_of_check rfl)
  | int => exact writesAll_word (isPlain_of_check rfl)
  | unit => exact writesAll_word (isPlain_of_check rfl)
  | string => exact writesAll_word (isPlain_of_check rfl)
  | user name =>
    exact writesAll_word (isPlain_name (.inl rfl) (h.names name List.mem_cons_self))
  | ref inner ih =>
    have hinner := writesAll_parenthesized (isCompound inner) (ih ⟨h.writable, h.names⟩)
    exact (hinner.append (writesAll_word (isPlain_of_check rfl))).joined
      (by simp [Ty.text, isCompound])
  | func source target ihs iht =>
    have hsource := writesAll_parenthesized source.isFunc
      (ihs ⟨h.writable.1, fun n hn => h.names n (List.mem_append_left _ hn)⟩)
    have htarget := iht ⟨h.writable.2, fun n hn => h.names n (List.mem_append_right _ hn)⟩
    exact (hsource.append (.cons (writes_word (isPlain_of_check rfl)) htarget)).joined
      (by simp [Ty.text])
  | array element dims ih =>
    obtain ⟨k, rfl⟩ : ∃ k, dims = k + 1 := ⟨dims - 1, by have := h.writable.1; omega⟩
    have helement := writesAll_parenthesized (isCompound element) (ih ⟨h.writable.2, h.names⟩)
    have harray : Writes "array" (.word "array") := writes_word (isPlain_of_check rfl)
    have hof : Writes "of" (.word "of") := writes_word (isPlain_of_check rfl)
    -- A single dimension is not mentioned: there are brackets from two on.
    cases k with
    | zero =>
      exact (WritesAll.cons harray (.cons hof helement)).joined
        (by simp [Ty.text, Ty.arrayWord, isCompound])
    | succ k =>
      exact (WritesAll.cons harray (.cons (writes_stars _) (.cons hof helement))).joined
        (by simp [Ty.text, Ty.arrayWord, isCompound])

lemma isPlain_text {ty : Ty} (h : NamedType ty) (hspace : ¬ ty.text.toList.contains ' ' = true) :
    IsPlain ty.text.toList := by
  cases ty with
  | bool | char | float | int | unit | string => exact isPlain_of_check rfl
  | user name => exact isPlain_name (.inl rfl) (h.names name List.mem_cons_self)
  | array element dims =>
    refine absurd ?_ hspace
    simp only [Ty.text, Ty.arrayWord]
    split <;> simp
  | func source target => exact absurd (by simp [Ty.text]) hspace
  | ref inner => exact absurd (by simp [Ty.text]) hspace

lemma writes_operand {ty : Ty} (h : NamedType ty) : Writes (operand ty) (typeSexp ty) := by
  rw [operand, typeSexp]
  split
  next hspace =>
    obtain ⟨⟨hproper, -⟩, hrender⟩ := writesAll_parenthesized true (writesAll_type h)
    rw [hspace]
    refine ⟨hproper, ?_⟩
    simpa [parenItems, Sexp.renderRest] using hrender
  next hspace =>
    rw [Bool.eq_false_iff.mpr hspace]
    exact writes_word (isPlain_text h hspace)

def constSexp : Const → Sexp
  | .bool value => .word (if value then "true" else "false")
  | .char value => .char value
  | .int value => .int value
  | .float value => .word value.text
  | .string value => .string value
  | .unit => .list []

def annotationSexps : Option Ty → List Sexp
  | some ty => [.word ":", typeSexp ty]
  | none => []

def paramSexp (param : Param) : Sexp :=
  match param.ty with
  | some ty => .list (.word param.name :: .word ":" :: tyItems ty)
  | none => .word param.name

mutual

def patternSexp : Pattern → Sexp
  | .const _ value => constSexp value
  | .var _ name => .word name
  | .constr _ name [] => .word name
  | .constr _ name (arg :: args) => .list (.word name :: patternSexp arg :: patternSexps args)

def patternSexps : List Pattern → List Sexp
  | [] => []
  | pattern :: rest => patternSexp pattern :: patternSexps rest

end

mutual

/-- The nested list whose text is that of an expression. -/
def exprSexp : Expr → Sexp
  | .binary _ op left right => .list [.word op.symbol, exprSexp left, exprSexp right]
  | .unary _ op operand => .list [.word op.symbol, exprSexp operand]
  | .construct _ name args => .list (.word name :: exprSexps args)
  | .element _ name indices => .list (.bracket [] :: .word name :: exprSexps indices)
  | .const _ value => constSexp value
  | .constr _ name => .word name
  | .var _ name => .word name
  | .delete _ operand => .list [.word "delete", exprSexp operand]
  | .dim _ dimension name => .list [.word "dim", .int dimension, .word name]
  | .forLoop _ counter first down last body =>
    .list [.word "for", .word counter, exprSexp first, .word (if down then "downto" else "to"),
      exprSexp last, exprSexp body]
  | .call _ name args => .list (.word name :: exprSexps args)
  | .letIn _ group body => .list [.word "let-in", groupSexp group, exprSexp body]
  | .ifThen _ condition positive =>
    .list [.word "if", exprSexp condition, exprSexp positive]
  | .ifElse _ condition positive negative =>
    .list [.word "if", exprSexp condition, exprSexp positive, exprSexp negative]
  | .matchWith _ scrutinee clauses =>
    .list (.word "match" :: exprSexp scrutinee :: clauseSexps clauses)
  | .new _ ty => .list [.word "new", typeSexp ty]
  | .whileLoop _ condition body => .list [.word "while", exprSexp condition, exprSexp body]

def exprSexps : List Expr → List Sexp
  | [] => []
  | expr :: rest => exprSexp expr :: exprSexps rest

def clauseSexp : Clause → Sexp
  | .mk _ pattern body => .list [patternSexp pattern, exprSexp body]

def clauseSexps : List Clause → List Sexp
  | [] => []
  | clause :: rest => clauseSexp clause :: clauseSexps rest

def groupSexp : LetGroup → Sexp
  | .mk _ isRec defs =>
    .list ((if isRec then [.word "let", .word "rec"] else [.word "let"]) ++ defSexps defs)

def defSexp : Def → Sexp
  | .function _ name params result body =>
    .list ([.word "fun", .word name, .list (params.map paramSexp)] ++ annotationSexps result ++
      [exprSexp body])
  | .constant _ name ty body =>
    .list ([.word "const", .word name] ++ annotationSexps ty ++ [exprSexp body])
  | .mutableVar _ name ty => .list ([.word "mutable", .word name] ++ annotationSexps ty)
  | .mutableArray _ name dims ty =>
    .list ([.word "mutable", .word name, .bracket (exprSexps dims)] ++ annotationSexps ty)

def defSexps : List Def → List Sexp
  | [] => []
  | definition :: rest => defSexp definition :: defSexps rest

end

def constructorSexp (constructor : ConstructorDef) : Sexp :=
  .list (.word constructor.name :: constructor.args.map typeSexp)

def typeDefSexp (definition : TypeDef) : Sexp :=
  .list (.word definition.name :: definition.constructors.map constructorSexp)

def typeGroupSexp (group : TypeGroup) : Sexp := .list (.word "type" :: group.defs.map typeDefSexp)

/-- The nested list whose text is that of a definition. -/
def definitionSexp : Definition → Sexp
  | .lets group => groupSexp group
  | .types group => typeGroupSexp group

/-- The names of a node are names of a source, and so are those in its types. -/
def Named : Node → Prop
  | .expr (.construct _ name _) | .expr (.constr _ name) | .pattern (.constr _ name _) =>
    IsLexeme .conid name.toList
  | .expr (.element _ name _) | .expr (.var _ name) | .expr (.dim _ _ name)
  | .expr (.forLoop _ name _ _ _ _) | .expr (.call _ name _) | .pattern (.var _ name) =>
    IsLexeme .genid name.toList
  | .expr (.new _ ty) => NamedType ty
  | .definition (.function _ name _ ty _) | .definition (.constant _ name ty _)
  | .definition (.mutableVar _ name ty) | .definition (.mutableArray _ name _ ty)
  | .param ⟨_, name, ty⟩ => IsLexeme .genid name.toList ∧ ∀ t ∈ ty, NamedType t
  | .typeDef definition => IsPlain definition.name.toList
  | .constructor constructor =>
    IsLexeme .conid constructor.name.toList ∧ ∀ ty ∈ constructor.args, NamedType ty
  | _ => True

/-- The constants whose text does not tell their value. -/
def isFloat : Node → Bool
  | .expr (.const _ (.float _)) | .pattern (.const _ (.float _)) => true
  | _ => false

/-- All names are names of a source, and no constant is a float. -/
def Readable (nodes : List Node) : Prop := ∀ n ∈ nodes, Named n ∧ isFloat n = false

section

variable {n : Node} {nodes nodes' : List Node}

lemma readable_append : Readable (nodes ++ nodes') ↔ Readable nodes ∧ Readable nodes' :=
  List.forall_mem_append

lemma readable_singleton : Readable [n] ↔ Named n ∧ isFloat n = false := List.forall_mem_singleton

lemma readable_flatMap {α : Type} {l : List α} {f : α → List Node} :
    Readable (l.flatMap f) ↔ ∀ a ∈ l, Readable (f a) :=
  List.forall_mem_flatMap

lemma readable_map {α : Type} {l : List α} {f : α → Node} :
    Readable (l.map f) ↔ ∀ a ∈ l, Named (f a) ∧ isFloat (f a) = false :=
  List.forall_mem_map

end

lemma writes_fixed (text : String)
    (h : (!text.toList.isEmpty && text.toList.all (fun c => !isDelimiter c) &&
      shapeOf text.toList == .word) = true) : Writes text (.word text) :=
  writes_word (isPlain_of_check h)

lemma writes_genid {name : String} (h : IsLexeme .genid name.toList) : Writes name (.word name) :=
  writes_word (isPlain_name (.inl rfl) h)

lemma writes_conid {name : String} (h : IsLexeme .conid name.toList) : Writes name (.word name) :=
  writes_word (isPlain_name (.inr rfl) h)

lemma writes_const {value : Const} (h : ∀ x, value ≠ .float x) :
    Writes value.text (constSexp value) := by
  cases value with
  | bool value => cases value <;> exact writes_fixed _ rfl
  | char value => exact ⟨trivial, String.toList_ofList.symm⟩
  | int value => exact ⟨trivial, rfl⟩
  | float x => exact absurd rfl (h x)
  | string value => exact ⟨trivial, String.toList_ofList.symm⟩
  | unit => exact ⟨trivial, rfl⟩

lemma writesAll_annotated {ty : Option Ty} (h : ∀ t ∈ ty, NamedType t) :
    WritesAll (typeTexts ty) (annotationSexps ty) := by
  cases ty with
  | none => exact writesAll_nil
  | some ty => exact .cons (writes_fixed ":" rfl) (.cons (writes_operand (h ty rfl)) writesAll_nil)

lemma writes_param {param : Param} (h : Named (.param param)) :
    Writes param.text (paramSexp param) := by
  obtain ⟨site, name, ty⟩ := param
  obtain ⟨hname, hty⟩ := h
  cases ty with
  | none => exact writes_genid hname
  | some ty =>
    exact writes_listed
      (.cons (writes_genid hname) (.cons (writes_fixed ":" rfl) (writesAll_type (hty ty rfl))))

lemma writesAll_patterns {ps : List Pattern} (h : ∀ p ∈ ps, Writes p.text (patternSexp p)) :
    WritesAll (Pattern.texts ps) (patternSexps ps) := by
  induction ps with
  | nil => exact writesAll_nil
  | cons p ps ih =>
    obtain ⟨hp, hps⟩ := List.forall_mem_cons.mp h
    exact .cons hp (ih hps)

lemma pattern_writes :
    PatternCases fun p => Readable p.nodes → Writes p.text (patternSexp p) where
  constr site name args ih h := by
    rw [Pattern.nodes, patternNodes_eq_flatMap, readable_append, readable_flatMap,
      readable_singleton] at h
    obtain ⟨hargs, hname, -⟩ := h
    have hwrites := fun p hp => ih p hp (hargs p hp)
    cases args with
    | nil => exact writes_conid hname
    | cons arg args => exact writes_listed (.cons (writes_conid hname) (writesAll_patterns hwrites))
  const site value h := by
    rw [Pattern.nodes, readable_singleton] at h
    refine writes_const ?_
    rintro x rfl
    cases h.2
  var site name h := by
    rw [Pattern.nodes, readable_singleton] at h
    exact writes_genid h.1

lemma writesAll_exprs {es : List Expr}
    (h : ∀ e ∈ es, Readable e.nodes → Writes e.text (exprSexp e))
    (hes : Readable (Expr.nodesOfList es)) : WritesAll (Expr.texts es) (exprSexps es) := by
  induction es with
  | nil => exact writesAll_nil
  | cons e es ih =>
    rw [Expr.nodesOfList, readable_append] at hes
    obtain ⟨he, hrest⟩ := List.forall_mem_cons.mp h
    exact .cons (he hes.1) (ih hrest hes.2)

lemma writesAll_clauses {cs : List Clause}
    (h : ∀ c ∈ cs, Readable c.body.nodes → Writes c.body.text (exprSexp c.body))
    (hcs : Readable (Clause.nodesOfList cs)) : WritesAll (Clause.texts cs) (clauseSexps cs) := by
  induction cs with
  | nil => exact writesAll_nil
  | cons c cs ih =>
    obtain ⟨site, pattern, body⟩ := c
    rw [Clause.nodesOfList, Clause.nodes, readable_append, readable_append, readable_append] at hcs
    obtain ⟨⟨⟨hpattern, hbody⟩, -⟩, hcs⟩ := hcs
    obtain ⟨hc, hrest⟩ := List.forall_mem_cons.mp h
    exact .cons (writes_listed (.cons (pattern_writes.pattern pattern hpattern)
      (.cons (hc hbody) writesAll_nil))) (ih hrest hcs)

lemma writesAll_defs {ds : List Def}
    (h : ∀ d ∈ ds, Readable d.nodes → Writes d.text (defSexp d))
    (hds : Readable (Def.nodesOfList ds)) : WritesAll (Def.texts ds) (defSexps ds) := by
  induction ds with
  | nil => exact writesAll_nil
  | cons d ds ih =>
    rw [Def.nodesOfList, readable_append] at hds
    obtain ⟨hd, hrest⟩ := List.forall_mem_cons.mp h
    exact .cons (hd hds.1) (ih hrest hds.2)

lemma writes_group {g : LetGroup} (h : ∀ d ∈ g.defs, Readable d.nodes → Writes d.text (defSexp d))
    (hg : Readable g.nodes) : Writes g.text (groupSexp g) := by
  obtain ⟨site, isRec, defs⟩ := g
  rw [LetGroup.nodes, readable_append] at hg
  have hlet : Writes "let" (.word "let") := writes_fixed "let" rfl
  have hdefs := writesAll_defs h hg.1
  cases isRec with
  | false => exact writes_listed (.cons hlet hdefs)
  | true => exact writes_listed (.cons hlet (.cons (writes_fixed "rec" rfl) hdefs))

lemma writes_binaryOp (op : BinaryOp) : Writes op.symbol (.word op.symbol) := by
  cases op <;> exact writes_fixed _ rfl

lemma writes_unaryOp (op : UnaryOp) : Writes op.symbol (.word op.symbol) := by
  cases op <;> exact writes_fixed _ rfl

/-- The text of a tree is that of its nested list. -/
lemma tree_writes : TreeCases (fun e => Readable e.nodes → Writes e.text (exprSexp e))
    (fun d => Readable d.nodes → Writes d.text (defSexp d)) where
  binary site op left right hl hr h := by
    rw [Expr.nodes, readable_append, readable_append] at h
    obtain ⟨⟨hleft, hright⟩, -⟩ := h
    exact writes_listed (.cons (writes_binaryOp op) (.cons (hl hleft)
      (.cons (hr hright) writesAll_nil)))
  unary site op operand ho h := by
    rw [Expr.nodes, readable_append] at h
    exact writes_listed (.cons (writes_unaryOp op) (.cons (ho h.1) writesAll_nil))
  construct site name args ih h := by
    rw [Expr.nodes, readable_append, readable_singleton] at h
    obtain ⟨hargs, hname, -⟩ := h
    exact writes_listed (.cons (writes_conid hname) (writesAll_exprs ih hargs))
  element site name indices ih h := by
    rw [Expr.nodes, readable_append, readable_singleton] at h
    obtain ⟨hindices, hname, -⟩ := h
    have hhead : Writes "[]" (.bracket []) := ⟨trivial, rfl⟩
    exact writes_listed (.cons hhead (.cons (writes_genid hname) (writesAll_exprs ih hindices)))
  const site value h := by
    rw [Expr.nodes, readable_singleton] at h
    refine writes_const ?_
    rintro x rfl
    cases h.2
  constr site name h := by
    rw [Expr.nodes, readable_singleton] at h
    exact writes_conid h.1
  var site name h := by
    rw [Expr.nodes, readable_singleton] at h
    exact writes_genid h.1
  delete site operand ho h := by
    rw [Expr.nodes, readable_append] at h
    exact writes_listed (.cons (writes_fixed _ rfl) (.cons (ho h.1) writesAll_nil))
  dim site dimension name h := by
    rw [Expr.nodes, readable_singleton] at h
    have hdimension : Writes (toString dimension) (.int dimension) := ⟨trivial, rfl⟩
    exact writes_listed (.cons (writes_fixed _ rfl) (.cons hdimension
      (.cons (writes_genid h.1) writesAll_nil)))
  forLoop site counter first down last body hf hl hb h := by
    simp only [Expr.nodes, readable_append, readable_singleton] at h
    obtain ⟨⟨⟨hfirst, hlast⟩, hbody⟩, hcounter, -⟩ := h
    have hway : ∀ down : Bool, Writes (if down then "downto" else "to")
        (.word (if down then "downto" else "to")) := by
      rintro (_ | _) <;> exact writes_fixed _ rfl
    exact writes_listed (.cons (writes_fixed _ rfl) (.cons (writes_genid hcounter)
      (.cons (hf hfirst) (.cons (hway down) (.cons (hl hlast) (.cons (hb hbody) writesAll_nil))))))
  call site name args ih h := by
    rw [Expr.nodes, readable_append, readable_singleton] at h
    obtain ⟨hargs, hname, -⟩ := h
    exact writes_listed (.cons (writes_genid hname) (writesAll_exprs ih hargs))
  letIn site group body hg hb h := by
    rw [Expr.nodes, readable_append, readable_append] at h
    obtain ⟨⟨hgroup, hbody⟩, -⟩ := h
    exact writes_listed (.cons (writes_fixed _ rfl) (.cons (writes_group hg hgroup)
      (.cons (hb hbody) writesAll_nil)))
  ifThen site condition positive hc hp h := by
    rw [Expr.nodes, readable_append, readable_append] at h
    obtain ⟨⟨hcondition, hpositive⟩, -⟩ := h
    exact writes_listed (.cons (writes_fixed _ rfl) (.cons (hc hcondition)
      (.cons (hp hpositive) writesAll_nil)))
  ifElse site condition positive negative hc hp hn h := by
    rw [Expr.nodes, readable_append, readable_append, readable_append] at h
    obtain ⟨⟨⟨hcondition, hpositive⟩, hnegative⟩, -⟩ := h
    exact writes_listed (.cons (writes_fixed _ rfl) (.cons (hc hcondition)
      (.cons (hp hpositive) (.cons (hn hnegative) writesAll_nil))))
  matchWith site scrutinee clauses hs hcs h := by
    rw [Expr.nodes, readable_append, readable_append] at h
    obtain ⟨⟨hscrutinee, hclauses⟩, -⟩ := h
    exact writes_listed (.cons (writes_fixed _ rfl) (.cons (hs hscrutinee)
      (writesAll_clauses hcs hclauses)))
  new site ty h := by
    rw [Expr.nodes, readable_singleton] at h
    exact writes_listed (.cons (writes_fixed _ rfl) (.cons (writes_operand h.1) writesAll_nil))
  whileLoop site condition body hc hb h := by
    rw [Expr.nodes, readable_append, readable_append] at h
    obtain ⟨⟨hcondition, hbody⟩, -⟩ := h
    exact writes_listed (.cons (writes_fixed _ rfl) (.cons (hc hcondition)
      (.cons (hb hbody) writesAll_nil)))
  function site name params result body hb h := by
    rw [Def.nodes, readable_append, readable_append, readable_map, readable_singleton] at h
    obtain ⟨⟨hparams, hbody⟩, ⟨hname, hresult⟩, -⟩ := h
    have hlist := writes_listed (writesAll_map fun p hp => writes_param (hparams p hp).1)
    exact writes_listed (.append (.append (.cons (writes_fixed _ rfl) (.cons (writes_genid hname)
      (.cons hlist writesAll_nil))) (writesAll_annotated hresult))
      (.cons (hb hbody) writesAll_nil))
  constant site name ty body hb h := by
    rw [Def.nodes, readable_append, readable_singleton] at h
    obtain ⟨hbody, ⟨hname, hty⟩, -⟩ := h
    exact writes_listed (.append (.append (.cons (writes_fixed _ rfl) (.cons (writes_genid hname)
      writesAll_nil)) (writesAll_annotated hty)) (.cons (hb hbody) writesAll_nil))
  mutableVar site name ty h := by
    rw [Def.nodes, readable_singleton] at h
    obtain ⟨⟨hname, hty⟩, -⟩ := h
    exact writes_listed (.append (.cons (writes_fixed _ rfl) (.cons (writes_genid hname)
      writesAll_nil)) (writesAll_annotated hty))
  mutableArray site name dims ty ih h := by
    rw [Def.nodes, readable_append, readable_singleton] at h
    obtain ⟨hdims, ⟨hname, hty⟩, -⟩ := h
    exact writes_listed (.append (.cons (writes_fixed _ rfl) (.cons (writes_genid hname)
      (.cons (writes_bracketed (writesAll_exprs ih hdims)) writesAll_nil)))
      (writesAll_annotated hty))

lemma writes_typeGroup {group : TypeGroup} (h : Readable group.nodes) :
    Writes group.text (typeGroupSexp group) := by
  rw [TypeGroup.nodes, readable_append, readable_flatMap] at h
  refine writes_listed (.cons (writes_fixed _ rfl) (writesAll_map fun d hd => ?_))
  have hd := h.1 d hd
  rw [TypeDef.nodes, readable_append, readable_map, readable_singleton] at hd
  refine writes_listed (.cons (writes_word hd.2.1) (writesAll_map fun c hc => ?_))
  obtain ⟨⟨hname, hargs⟩, -⟩ := hd.1 c hc
  exact writes_listed (.cons (writes_conid hname) (writesAll_map fun ty hty =>
    writes_operand (hargs ty hty)))

lemma writes_definition {definition : Definition} (h : Readable definition.nodes) :
    Writes definition.text (definitionSexp definition) := by
  cases definition with
  | lets group => exact writes_group (tree_writes.group group) h
  | types group => exact writes_typeGroup h

end Llama.Proofs
