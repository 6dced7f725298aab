import Llama.Proofs.TokenReading

/-!
# Writing programs as words

`unparse` writes a program in concrete syntax, with parentheses around every compound part of an
expression, a pattern or a type. The text of a literal is not fixed: any text will do that
decodes to the constant, and `LiteralTexts` chooses one. The least integer has no digits of its
own and is written as a sign with digits, as are negative constants of patterns.

`exprLevels` and its companions count how many levels of nesting a parser enters below the one
at which it starts to read what is written here.
-/

namespace Llama.Proofs

open Llama.Parser Llama.Grammar

/-- A keyword or symbol with its spelling. -/
abbrev terminal (kind : TokenKind) : Word := (kind, kind.text.getD "")

/-- The token that spells a binary operator. -/
def binaryKind : BinaryOp → TokenKind
  | .seq => .semicolon
  | .assign => .assign
  | .or => .bOr
  | .and => .bAnd
  | .eq => .equals
  | .neq => .neq
  | .natEq => .natEq
  | .natNeq => .natNeq
  | .lt => .lt
  | .le => .le
  | .gt => .gt
  | .ge => .ge
  | .add => .plus
  | .sub => .minus
  | .mul => .times
  | .div => .divide
  | .mod => .kwMod
  | .fAdd => .fPlus
  | .fSub => .fMinus
  | .fMul => .fTimes
  | .fDiv => .fDivide
  | .pow => .fPow

/-- The token that spells a prefix operator. -/
def unaryKind : UnaryOp → TokenKind
  | .plus => .plus
  | .minus => .minus
  | .fPlus => .fPlus
  | .fMinus => .fMinus
  | .not => .kwNot
  | .deref => .bang

/-- Parentheses around what is not an atom. -/
def wrap (atom : Bool) (words : List Word) : List Word :=
  if atom then words else terminal .lParen :: (words ++ [terminal .rParen])

/-- The levels that reading takes once there are parentheses around what is not an atom. -/
def wrapLevels (atom : Bool) (levels : Nat) : Nat :=
  if atom then 0 else levels + 1

/-- The texts of literals. -/
structure LiteralTexts where
  /-- The text of the literal for a constant. -/
  plain : Const → String
  /-- The text of the literal that stands for a constant after a minus sign. -/
  negated : Const → String

/-- The least machine integer. -/
def leastInt : Int := -(Text.int64Bound : Int)

/-- The digits of the least machine integer. -/
def leastIntDigits : String := "9223372036854775808"

/-- The kind of literal for a constant other than unit. -/
def literalKind : Const → TokenKind
  | .bool value => if value then .kwTrue else .kwFalse
  | .char _ => .charLiteral
  | .int _ => .intLiteral
  | .float _ => .floatLiteral
  | .string _ | .unit => .stringLiteral

/-- Whether a floating point number is below zero or a negative zero. -/
def floatNegative : Binary64 → Bool
  | .nan => false
  | .infinite negative | .finite negative _ _ => negative

variable (texts : LiteralTexts)

/-- The words of a constant in an expression. -/
def constWords : Const → List Word
  | .unit => [terminal .lParen, terminal .rParen]
  | .bool value => [terminal (literalKind (.bool value))]
  | .int n =>
    if n = leastInt then [terminal .minus, (.intLiteral, leastIntDigits)]
    else [(.intLiteral, texts.plain (.int n))]
  | c => [(literalKind c, texts.plain c)]

/-- The words of a constant in a pattern. -/
def patternConstWords : Const → List Word
  | .bool value => [terminal (literalKind (.bool value))]
  | .int n =>
    if n < 0 then [terminal .minus, (.intLiteral, texts.negated (.int n))]
    else [(.intLiteral, texts.plain (.int n))]
  | .float x =>
    if floatNegative x then [terminal .fMinus, (.floatLiteral, texts.negated (.float x))]
    else [(.floatLiteral, texts.plain (.float x))]
  | c => [(literalKind c, texts.plain c)]

/-- The text of a literal decodes to the constant. -/
def Decodes (text : String) (c : Const) : Prop := constantOf (literalKind c) text = .ok c

/-- A constant of an expression has a literal, or is written without one. -/
def constWritable : Const → Prop
  | .unit | .bool _ => True
  | .int n => n = leastInt ∨ Decodes (texts.plain (.int n)) (.int n)
  | c => Decodes (texts.plain c) c

/-- A constant of a pattern is a truth value, a character or a number, and has a literal, which
decodes together with the sign if the constant is negative. -/
def patternConstWritable : Const → Prop
  | .bool _ => True
  | .char c => Decodes (texts.plain (.char c)) (.char c)
  | .int n =>
    if n < 0 then Decodes ("-" ++ texts.negated (.int n)) (.int n)
    else Decodes (texts.plain (.int n)) (.int n)
  | .float x =>
    if floatNegative x then Decodes ("-" ++ texts.negated (.float x)) (.float x)
    else Decodes (texts.plain (.float x)) (.float x)
  | .string _ | .unit => False

/-- Whether a type is written as one word. -/
def tyIsAtom : Ty → Bool
  | .array _ _ | .func _ _ | .ref _ => false
  | _ => true

/-- The stars between brackets of an array type; one dimension is not mentioned. -/
def dimensionWords (dims : Nat) : List Word :=
  if dims = 1 then []
  else terminal .lBracket ::
    (separatedWords (terminal .comma) ((List.replicate dims ()).map fun _ => [terminal .times]) ++
      [terminal .rBracket])

@[simp]
def tyWords : Ty → List Word
  | .bool => [terminal .kwBool]
  | .char => [terminal .kwChar]
  | .float => [terminal .kwFloat]
  | .int => [terminal .kwInt]
  | .unit => [terminal .kwUnit]
  | .string => [(.genid, "string")]
  | .array element dims =>
    terminal .kwArray :: (dimensionWords dims ++
      terminal .kwOf :: wrap (tyIsAtom element) (tyWords element))
  | .func source target =>
    wrap (tyIsAtom source) (tyWords source) ++
      terminal .arrow :: wrap (tyIsAtom target) (tyWords target)
  | .ref inner => wrap (tyIsAtom inner) (tyWords inner) ++ [terminal .kwRef]
  | .user name => [(.genid, name)]

@[simp]
def tyLevels : Ty → Nat
  | .array element _ => wrapLevels (tyIsAtom element) (tyLevels element) + 1
  | .func source target =>
    max (wrapLevels (tyIsAtom source) (tyLevels source))
      (wrapLevels (tyIsAtom target) (tyLevels target) + 1)
  | .ref inner => wrapLevels (tyIsAtom inner) (tyLevels inner)
  | _ => 0

/-- Arrays have a dimension, and no user type has the name of a built-in one. -/
@[simp]
def tyWritable : Ty → Prop
  | .array element dims => 0 < dims ∧ tyWritable element
  | .func source target => tyWritable source ∧ tyWritable target
  | .ref inner => tyWritable inner
  | .user name => Ty.builtin? name = none
  | _ => True

/-- A type after a colon. -/
def annotationWords : Option Ty → List Word
  | some ty => terminal .colon :: tyWords ty
  | none => []

def annotationLevels : Option Ty → Nat
  | some ty => tyLevels ty + 1
  | none => 0

def annotationWritable (ty : Option Ty) : Prop := ∀ t ∈ ty, tyWritable t

/-- Whether a pattern can stand as an argument. -/
def patternIsAtom : Pattern → Bool
  | .constr _ _ args => args.isEmpty
  | _ => true

mutual

@[simp]
def patternWords : Pattern → List Word
  | .constr _ name args => (.conid, name) :: (patternListWords args).flatten
  | .const _ value => patternConstWords texts value
  | .var _ name => [(.genid, name)]

/-- The words of patterns that stand as arguments. -/
@[simp]
def patternListWords : List Pattern → List (List Word)
  | [] => []
  | p :: rest => wrap (patternIsAtom p) (patternWords p) :: patternListWords rest

end

mutual

@[simp]
def patternLevels : Pattern → Nat
  | .constr _ _ args => patternListLevels args
  | _ => 0

@[simp]
def patternListLevels : List Pattern → Nat
  | [] => 0
  | p :: rest => max (wrapLevels (patternIsAtom p) (patternLevels p)) (patternListLevels rest)

end

mutual

/-- The constants of a pattern can be written. -/
@[simp]
def patternWritable : Pattern → Prop
  | .constr _ _ args => patternListWritable args
  | .const _ value => patternConstWritable texts value
  | .var _ _ => True

@[simp]
def patternListWritable : List Pattern → Prop
  | [] => True
  | p :: rest => patternWritable p ∧ patternListWritable rest

end

/-- Whether an expression can stand as an argument without parentheses of its own. -/
def exprIsAtom : Expr → Bool
  | .const _ (.int n) => n != leastInt
  | .const _ _ | .constr _ _ | .var _ _ => true
  | _ => false

/-- A parameter is put in parentheses when it has a type. -/
def paramWords (p : Param) : List Word :=
  match p.ty with
  | none => [(.genid, p.name)]
  | some ty =>
    terminal .lParen :: (.genid, p.name) :: terminal .colon :: (tyWords ty ++ [terminal .rParen])

mutual

@[simp]
def exprWords : Expr → List Word
  | .binary _ op left right =>
    wrap (exprIsAtom left) (exprWords left) ++
      terminal (binaryKind op) :: wrap (exprIsAtom right) (exprWords right)
  | .unary _ op operand =>
    terminal (unaryKind op) :: wrap (exprIsAtom operand) (exprWords operand)
  | .construct _ name args => (.conid, name) :: (exprListWords args).flatten
  | .element _ name indices =>
    (.genid, name) :: terminal .lBracket ::
      (separatedWords (terminal .comma) (exprListWords indices) ++ [terminal .rBracket])
  | .const _ value => constWords texts value
  | .constr _ name => [(.conid, name)]
  | .var _ name => [(.genid, name)]
  | .delete _ operand => terminal .kwDelete :: wrap (exprIsAtom operand) (exprWords operand)
  | .dim _ dimension name =>
    [terminal .kwDim, (.intLiteral, texts.plain (.int dimension)), (.genid, name)]
  | .forLoop _ counter first down last body =>
    terminal .kwFor :: (.genid, counter) :: terminal .equals ::
      (wrap (exprIsAtom first) (exprWords first) ++
        terminal (if down then .kwDownto else .kwTo) ::
          (wrap (exprIsAtom last) (exprWords last) ++ terminal .kwDo ::
            (wrap (exprIsAtom body) (exprWords body) ++ [terminal .kwDone])))
  | .call _ name args => (.genid, name) :: (exprListWords args).flatten
  | .letIn _ group body =>
    groupWords group ++ terminal .kwIn :: wrap (exprIsAtom body) (exprWords body)
  | .ifThen _ condition positive =>
    terminal .kwIf :: (wrap (exprIsAtom condition) (exprWords condition) ++
      terminal .kwThen :: wrap (exprIsAtom positive) (exprWords positive))
  | .ifElse _ condition positive negative =>
    terminal .kwIf :: (wrap (exprIsAtom condition) (exprWords condition) ++
      terminal .kwThen :: (wrap (exprIsAtom positive) (exprWords positive) ++
        terminal .kwElse :: wrap (exprIsAtom negative) (exprWords negative)))
  | .matchWith _ scrutinee clauses =>
    terminal .kwMatch :: (wrap (exprIsAtom scrutinee) (exprWords scrutinee) ++
      terminal .kwWith ::
        (separatedWords (terminal .pipe) (clauseListWords clauses) ++ [terminal .kwEnd]))
  | .new _ ty => terminal .kwNew :: tyWords ty
  | .whileLoop _ condition body =>
    terminal .kwWhile :: (wrap (exprIsAtom condition) (exprWords condition) ++
      terminal .kwDo :: (wrap (exprIsAtom body) (exprWords body) ++ [terminal .kwDone]))

/-- The words of expressions that stand as arguments. -/
@[simp]
def exprListWords : List Expr → List (List Word)
  | [] => []
  | e :: rest => wrap (exprIsAtom e) (exprWords e) :: exprListWords rest

@[simp]
def clauseListWords : List Clause → List (List Word)
  | [] => []
  | .mk _ pattern body :: rest =>
    (patternWords texts pattern ++ terminal .arrow :: wrap (exprIsAtom body) (exprWords body)) ::
      clauseListWords rest

@[simp]
def groupWords : LetGroup → List Word
  | .mk _ isRec defs =>
    terminal .kwLet :: ((if isRec then [terminal .kwRec] else []) ++
      separatedWords (terminal .kwAnd) (defListWords defs))

@[simp]
def defListWords : List Def → List (List Word)
  | [] => []
  | d :: rest => defWords d :: defListWords rest

@[simp]
def defWords : Def → List Word
  | .function _ name params result body =>
    (.genid, name) :: (params.flatMap paramWords ++ (annotationWords result ++
      terminal .equals :: wrap (exprIsAtom body) (exprWords body)))
  | .constant _ name ty body =>
    (.genid, name) :: (annotationWords ty ++
      terminal .equals :: wrap (exprIsAtom body) (exprWords body))
  | .mutableVar _ name ty => terminal .kwMutable :: (.genid, name) :: annotationWords ty
  | .mutableArray _ name dims ty =>
    terminal .kwMutable :: (.genid, name) :: terminal .lBracket ::
      (separatedWords (terminal .comma) (exprListWords dims) ++
        terminal .rBracket :: annotationWords ty)

end

mutual

@[simp]
def exprLevels : Expr → Nat
  | .binary _ _ left right =>
    max (wrapLevels (exprIsAtom left) (exprLevels left))
      (wrapLevels (exprIsAtom right) (exprLevels right) + 1)
  | .unary _ _ operand => wrapLevels (exprIsAtom operand) (exprLevels operand) + 1
  | .construct _ _ args => exprListLevels args
  | .element _ _ indices => exprListLevels indices + 1
  | .const _ _ | .constr _ _ | .var _ _ | .dim _ _ _ => 0
  | .delete _ operand => wrapLevels (exprIsAtom operand) (exprLevels operand) + 1
  | .forLoop _ _ first _ last body =>
    max (wrapLevels (exprIsAtom first) (exprLevels first))
      (max (wrapLevels (exprIsAtom last) (exprLevels last))
        (wrapLevels (exprIsAtom body) (exprLevels body))) + 1
  | .call _ _ args => exprListLevels args
  | .letIn _ group body =>
    max (groupLevels group) (wrapLevels (exprIsAtom body) (exprLevels body) + 1)
  | .ifThen _ condition positive =>
    max (wrapLevels (exprIsAtom condition) (exprLevels condition))
      (wrapLevels (exprIsAtom positive) (exprLevels positive)) + 1
  | .ifElse _ condition positive negative =>
    max (wrapLevels (exprIsAtom condition) (exprLevels condition))
      (max (wrapLevels (exprIsAtom positive) (exprLevels positive))
        (wrapLevels (exprIsAtom negative) (exprLevels negative))) + 1
  | .matchWith _ scrutinee clauses =>
    max (wrapLevels (exprIsAtom scrutinee) (exprLevels scrutinee)) (clauseListLevels clauses) + 1
  | .new _ ty => tyLevels ty + 1
  | .whileLoop _ condition body =>
    max (wrapLevels (exprIsAtom condition) (exprLevels condition))
      (wrapLevels (exprIsAtom body) (exprLevels body)) + 1

@[simp]
def exprListLevels : List Expr → Nat
  | [] => 0
  | e :: rest => max (wrapLevels (exprIsAtom e) (exprLevels e)) (exprListLevels rest)

@[simp]
def clauseListLevels : List Clause → Nat
  | [] => 0
  | .mk _ pattern body :: rest =>
    max (max (patternLevels pattern) (wrapLevels (exprIsAtom body) (exprLevels body)))
      (clauseListLevels rest)

@[simp]
def groupLevels : LetGroup → Nat
  | .mk _ _ defs => defListLevels defs

@[simp]
def defListLevels : List Def → Nat
  | [] => 0
  | d :: rest => max (defLevels d) (defListLevels rest)

@[simp]
def defLevels : Def → Nat
  | .function _ _ params result body =>
    max ((params.map fun p => annotationLevels p.ty).foldr max 0)
      (max (annotationLevels result) (wrapLevels (exprIsAtom body) (exprLevels body) + 1))
  | .constant _ _ ty body =>
    max (annotationLevels ty) (wrapLevels (exprIsAtom body) (exprLevels body) + 1)
  | .mutableVar _ _ ty => annotationLevels ty
  | .mutableArray _ _ dims ty => max (exprListLevels dims + 1) (annotationLevels ty)

end

mutual

/-- Lists of arguments, indices, clauses and definitions are not empty, and types and constants
can be written. -/
@[simp]
def exprWritable : Expr → Prop
  | .binary _ _ left right => exprWritable left ∧ exprWritable right
  | .unary _ _ operand => exprWritable operand
  | .construct _ _ args => args ≠ [] ∧ exprListWritable args
  | .element _ _ indices => indices ≠ [] ∧ exprListWritable indices
  | .const _ value => constWritable texts value
  | .constr _ _ | .var _ _ => True
  | .delete _ operand => exprWritable operand
  | .dim _ dimension _ => Decodes (texts.plain (.int dimension)) (.int dimension)
  | .forLoop _ _ first _ last body =>
    exprWritable first ∧ exprWritable last ∧ exprWritable body
  | .call _ _ args => args ≠ [] ∧ exprListWritable args
  | .letIn _ group body => groupWritable group ∧ exprWritable body
  | .ifThen _ condition positive => exprWritable condition ∧ exprWritable positive
  | .ifElse _ condition positive negative =>
    exprWritable condition ∧ exprWritable positive ∧ exprWritable negative
  | .matchWith _ scrutinee clauses =>
    exprWritable scrutinee ∧ clauses ≠ [] ∧ clauseListWritable clauses
  | .new _ ty => tyWritable ty
  | .whileLoop _ condition body => exprWritable condition ∧ exprWritable body

@[simp]
def exprListWritable : List Expr → Prop
  | [] => True
  | e :: rest => exprWritable e ∧ exprListWritable rest

@[simp]
def clauseListWritable : List Clause → Prop
  | [] => True
  | .mk _ pattern body :: rest =>
    patternWritable texts pattern ∧ exprWritable body ∧ clauseListWritable rest

@[simp]
def groupWritable : LetGroup → Prop
  | .mk _ _ defs => defs ≠ [] ∧ defListWritable defs

@[simp]
def defListWritable : List Def → Prop
  | [] => True
  | d :: rest => defWritable d ∧ defListWritable rest

@[simp]
def defWritable : Def → Prop
  | .function _ _ params result body =>
    params ≠ [] ∧ (∀ p ∈ params, annotationWritable p.ty) ∧ annotationWritable result ∧
      exprWritable body
  | .constant _ _ ty body => annotationWritable ty ∧ exprWritable body
  | .mutableVar _ _ ty => annotationWritable ty
  | .mutableArray _ _ dims ty => dims ≠ [] ∧ exprListWritable dims ∧ annotationWritable ty

end

/-- The token for the name of a type definition. The names of built-in types are keywords, save
that of strings. -/
def typeNameKind (name : String) : TokenKind :=
  match [TokenKind.kwInt, .kwBool, .kwChar, .kwFloat, .kwUnit].find? (·.text == some name) with
  | some kind => kind
  | none => .genid

def constructorWords (c : ConstructorDef) : List Word :=
  (.conid, c.name) :: (if c.args.isEmpty then [] else terminal .kwOf ::
    c.args.flatMap fun ty => wrap (tyIsAtom ty) (tyWords ty))

def typeDefWords (d : TypeDef) : List Word :=
  (typeNameKind d.name, d.name) :: terminal .equals ::
    separatedWords (terminal .pipe) (d.constructors.map constructorWords)

def typeGroupWords (g : TypeGroup) : List Word :=
  terminal .kwType :: separatedWords (terminal .kwAnd) (g.defs.map typeDefWords)

def definitionWords : Definition → List Word
  | .lets group => groupWords texts group
  | .types group => typeGroupWords group

/-- A program in concrete syntax. -/
def unparse (program : Program) : List Word :=
  program.definitions.flatMap (definitionWords texts)

/-- The levels that reading the arguments of a constructor takes. -/
def typeGroupLevels (g : TypeGroup) : Nat :=
  ((g.defs.flatMap TypeDef.constructors).flatMap fun c =>
    c.args.map fun ty => wrapLevels (tyIsAtom ty) (tyLevels ty) + 1).foldr max 0

def definitionLevels : Definition → Nat
  | .lets group => groupLevels group
  | .types group => typeGroupLevels group

/-- How many levels of nesting a program takes when it is read in concrete syntax. -/
def programLevels (program : Program) : Nat :=
  (program.definitions.map definitionLevels).foldr max 0

def typeGroupWritable (g : TypeGroup) : Prop :=
  g.defs ≠ [] ∧ ∀ d ∈ g.defs, d.constructors ≠ [] ∧
    ∀ c ∈ d.constructors, ∀ ty ∈ c.args, tyWritable ty

def definitionWritable : Definition → Prop
  | .lets group => groupWritable texts group
  | .types group => typeGroupWritable group

/-- A program that the concrete syntax can express, with the given texts for its literals. -/
def programWritable (program : Program) : Prop :=
  ∀ d ∈ program.definitions, definitionWritable texts d

variable {texts}

lemma wrapLevels_le {atom : Bool} {levels n : Nat} :
    wrapLevels atom levels ≤ n ↔ (atom = false → levels + 1 ≤ n) := by
  cases atom <;> simp [wrapLevels]

lemma foldr_max_le {l : List Nat} {n : Nat} : l.foldr max 0 ≤ n ↔ ∀ x ∈ l, x ≤ n := by
  induction l with
  | nil => simp
  | cons x l ih => rw [List.foldr_cons, Nat.max_le, ih, List.forall_mem_cons]

lemma patternListWords_eq_map (ps : List Pattern) :
    patternListWords texts ps =
      ps.map fun p => wrap (patternIsAtom p) (patternWords texts p) := by
  induction ps with
  | nil => rfl
  | cons p ps ih => rw [patternListWords, ih, List.map_cons]

lemma patternListLevels_le {ps : List Pattern} {n : Nat} :
    patternListLevels ps ≤ n ↔
      ∀ p ∈ ps, wrapLevels (patternIsAtom p) (patternLevels p) ≤ n := by
  induction ps with
  | nil => simp
  | cons p ps ih => rw [patternListLevels, Nat.max_le, ih, List.forall_mem_cons]

lemma patternListWritable_iff {ps : List Pattern} :
    patternListWritable texts ps ↔ ∀ p ∈ ps, patternWritable texts p := by
  induction ps with
  | nil => simp
  | cons p ps ih => simp [ih]

lemma exprListWords_eq_map (es : List Expr) :
    exprListWords texts es = es.map fun e => wrap (exprIsAtom e) (exprWords texts e) := by
  induction es with
  | nil => rfl
  | cons e es ih => rw [exprListWords, ih, List.map_cons]

lemma exprListLevels_le {es : List Expr} {n : Nat} :
    exprListLevels es ≤ n ↔ ∀ e ∈ es, wrapLevels (exprIsAtom e) (exprLevels e) ≤ n := by
  induction es with
  | nil => simp
  | cons e es ih => rw [exprListLevels, Nat.max_le, ih, List.forall_mem_cons]

lemma exprListWritable_iff {es : List Expr} :
    exprListWritable texts es ↔ ∀ e ∈ es, exprWritable texts e := by
  induction es with
  | nil => simp
  | cons e es ih => simp [ih]

/-- The words of one clause. -/
def clauseWords (texts : LiteralTexts) (c : Clause) : List Word :=
  patternWords texts c.pattern ++
    terminal .arrow :: wrap (exprIsAtom c.body) (exprWords texts c.body)

lemma clauseListWords_eq_map (cs : List Clause) :
    clauseListWords texts cs = cs.map (clauseWords texts) := by
  induction cs with
  | nil => rfl
  | cons c cs ih =>
    obtain ⟨site, pattern, body⟩ := c
    rw [clauseListWords, ih, List.map_cons]
    rfl

lemma clauseListLevels_le {cs : List Clause} {n : Nat} :
    clauseListLevels cs ≤ n ↔ ∀ c ∈ cs, patternLevels c.pattern ≤ n ∧
      wrapLevels (exprIsAtom c.body) (exprLevels c.body) ≤ n := by
  induction cs with
  | nil => simp
  | cons c cs ih =>
    obtain ⟨site, pattern, body⟩ := c
    rw [clauseListLevels, Nat.max_le, Nat.max_le, ih, List.forall_mem_cons]
    rfl

lemma clauseListWritable_iff {cs : List Clause} :
    clauseListWritable texts cs ↔
      ∀ c ∈ cs, patternWritable texts c.pattern ∧ exprWritable texts c.body := by
  induction cs with
  | nil => simp
  | cons c cs ih =>
    obtain ⟨site, pattern, body⟩ := c
    rw [clauseListWritable, ih, List.forall_mem_cons, ← and_assoc]
    rfl

lemma defListWords_eq_map (ds : List Def) :
    defListWords texts ds = ds.map (defWords texts) := by
  induction ds with
  | nil => rfl
  | cons d ds ih => rw [defListWords, ih, List.map_cons]

lemma defListLevels_le {ds : List Def} {n : Nat} :
    defListLevels ds ≤ n ↔ ∀ d ∈ ds, defLevels d ≤ n := by
  induction ds with
  | nil => simp
  | cons d ds ih => rw [defListLevels, Nat.max_le, ih, List.forall_mem_cons]

lemma defListWritable_iff {ds : List Def} :
    defListWritable texts ds ↔ ∀ d ∈ ds, defWritable texts d := by
  induction ds with
  | nil => simp
  | cons d ds ih => simp [ih]

end Llama.Proofs
