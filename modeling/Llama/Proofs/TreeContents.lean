import Llama.Proofs.ParsedNames
import Llama.Proofs.PrecedenceClimbing
import Llama.Proofs.TreeLayout

/-!
# What a tree holds is what its tokens spell

Going through a tree in the order of the source one meets names and constants. They are those that
the tokens spell, one for one: no name or literal of a text is lost, doubled or moved, and none is
made up. Only the unit constant and the keywords for built-in types, which may stand where a type
definition has its name, are no names or literals themselves.
-/

namespace Llama.Proofs

open Llama.Parser Llama.Grammar

variable {kind : TokenKind} {n : Node} {value : Const}

/-- A name or a constant that a tree holds. -/
inductive Mention where
  | name (name : String)
  /-- The name that a type definition defines. -/
  | typeName (name : String)
  /-- A constant of an expression. -/
  | const (value : Const)
  /-- A constant of a pattern. -/
  | matched (value : Const)
  /-- The number of a dimension of an array. -/
  | dimension (number : Int)
deriving DecidableEq, Repr

/-- The names in a type; the keywords for built-in types are none. -/
def typeNames : Ty → List String
  | .user name => [name]
  | .string => ["string"]
  | .array element _ => typeNames element
  | .func source target => typeNames source ++ typeNames target
  | .ref inner => typeNames inner
  | .bool | .char | .float | .int | .unit => []

def typeMentions (ty : Ty) : List Mention := (typeNames ty).map .name

mutual

/-- What a pattern holds, in the order of the source. -/
@[simp]
def patternMentions : Pattern → List Mention
  | .constr _ name args => .name name :: patternsMentions args
  | .const _ value => [.matched value]
  | .var _ name => [.name name]

@[simp]
def patternsMentions : List Pattern → List Mention
  | [] => []
  | p :: rest => patternMentions p ++ patternsMentions rest

end

def paramMentions (p : Param) : List Mention := .name p.name :: p.ty.toList.flatMap typeMentions

mutual

/-- What an expression holds, in the order of the source. -/
@[simp]
def exprMentions : Expr → List Mention
  | .binary _ _ left right => exprMentions left ++ exprMentions right
  | .unary _ _ operand => exprMentions operand
  | .construct _ name args => .name name :: exprsMentions args
  | .element _ name indices => .name name :: exprsMentions indices
  | .const _ value => [.const value]
  | .constr _ name => [.name name]
  | .var _ name => [.name name]
  | .delete _ operand => exprMentions operand
  | .dim _ dimension name => [.dimension dimension, .name name]
  | .forLoop _ counter first _ last body =>
    .name counter :: (exprMentions first ++ exprMentions last ++ exprMentions body)
  | .call _ name args => .name name :: exprsMentions args
  | .letIn _ group body => groupMentions group ++ exprMentions body
  | .ifThen _ condition positive => exprMentions condition ++ exprMentions positive
  | .ifElse _ condition positive negative =>
    exprMentions condition ++ exprMentions positive ++ exprMentions negative
  | .matchWith _ scrutinee clauses => exprMentions scrutinee ++ clausesMentions clauses
  | .new _ ty => typeMentions ty
  | .whileLoop _ condition body => exprMentions condition ++ exprMentions body

@[simp]
def exprsMentions : List Expr → List Mention
  | [] => []
  | e :: rest => exprMentions e ++ exprsMentions rest

@[simp]
def clausesMentions : List Clause → List Mention
  | [] => []
  | .mk _ pattern body :: rest =>
    patternMentions pattern ++ exprMentions body ++ clausesMentions rest

@[simp]
def groupMentions : LetGroup → List Mention
  | .mk _ _ defs => defsMentions defs

@[simp]
def defsMentions : List Def → List Mention
  | [] => []
  | d :: rest => defMentions d ++ defsMentions rest

/-- What a definition holds, in the order of the source. -/
@[simp]
def defMentions : Def → List Mention
  | .function _ name params result body =>
    .name name :: (params.flatMap paramMentions ++ result.toList.flatMap typeMentions ++
      exprMentions body)
  | .constant _ name ty body => .name name :: (ty.toList.flatMap typeMentions ++ exprMentions body)
  | .mutableVar _ name ty => .name name :: ty.toList.flatMap typeMentions
  | .mutableArray _ name dims ty =>
    .name name :: (exprsMentions dims ++ ty.toList.flatMap typeMentions)

end

def constructorMentions (c : ConstructorDef) : List Mention :=
  .name c.name :: c.args.flatMap typeMentions

def typeDefMentions (d : TypeDef) : List Mention :=
  .typeName d.name :: d.constructors.flatMap constructorMentions

def definitionMentions : Definition → List Mention
  | .lets group => groupMentions group
  | .types group => group.defs.flatMap typeDefMentions

/-- What a program holds, in the order of the source. -/
def programMentions (program : Program) : List Mention :=
  program.definitions.flatMap definitionMentions

def nodeMentions : Node → List Mention
  | .letGroup g => groupMentions g
  | .definition d => defMentions d
  | .param p => paramMentions p
  | .expr e => exprMentions e
  | .clause c => patternMentions c.pattern ++ exprMentions c.body
  | .pattern p => patternMentions p
  | .typeGroup g => g.defs.flatMap typeDefMentions
  | .typeDef d => typeDefMentions d
  | .constructor c => constructorMentions c

def partMentions : Part → List Mention
  | .name name => [.name name]
  | .typeName name => [.typeName name]
  | .const value => [.const value]
  | .matched value => [.matched value]
  | .dimension number => [.dimension number]
  | .ty ty => typeMentions ty
  | .node n => nodeMentions n

lemma patternsMentions_eq (ps : List Pattern) :
    patternsMentions ps = ps.flatMap patternMentions := by
  induction ps with
  | nil => rfl
  | cons p ps ih => rw [patternsMentions, ih, List.flatMap_cons]

lemma exprsMentions_eq (es : List Expr) : exprsMentions es = es.flatMap exprMentions := by
  induction es with
  | nil => rfl
  | cons e es ih => rw [exprsMentions, ih, List.flatMap_cons]

lemma clausesMentions_eq (cs : List Clause) :
    clausesMentions cs = cs.flatMap fun c => nodeMentions (.clause c) := by
  induction cs with
  | nil => rfl
  | cons c cs ih =>
    obtain ⟨site, pattern, body⟩ := c
    rw [clausesMentions, ih, List.flatMap_cons]
    rfl

lemma defsMentions_eq (ds : List Def) : defsMentions ds = ds.flatMap defMentions := by
  induction ds with
  | nil => rfl
  | cons d ds ih => rw [defsMentions, ih, List.flatMap_cons]

/-- A node holds what its parts hold. -/
lemma nodeMentions_eq (n : Node) : nodeMentions n = (parts n).flatMap partMentions := by
  cases n with
  | letGroup g =>
    obtain ⟨site, isRec, defs⟩ := g
    simp only [nodeMentions, groupMentions, defsMentions_eq, parts, LetGroup.defs, List.flatMap_map,
      partMentions]
  | definition d =>
    cases d <;> simp [nodeMentions, parts, defParts, partMentions, List.flatMap_map,
      exprsMentions_eq]
  | param p => simp [nodeMentions, paramMentions, parts, partMentions, List.flatMap_map]
  | expr e =>
    cases e <;> simp [nodeMentions, parts, exprParts, partMentions, List.flatMap_map,
      exprsMentions_eq, clausesMentions_eq]
  | clause c => simp [nodeMentions, parts, partMentions]
  | pattern p =>
    cases p <;> simp [nodeMentions, parts, partMentions, List.flatMap_map, patternsMentions_eq]
  | typeGroup g => simp [nodeMentions, parts, partMentions, List.flatMap_map]
  | typeDef d =>
    simp [nodeMentions, typeDefMentions, parts, partMentions, List.flatMap_map]
  | constructor c =>
    simp [nodeMentions, constructorMentions, parts, partMentions, List.flatMap_map]

/-- Something that tokens write down. -/
inductive Written where
  | name (name : String)
  /-- A literal with the kind of the token before it. -/
  | literal (before : Option TokenKind) (token : Token)
  /-- A `dim` without a number. -/
  | noDimension
deriving DecidableEq, Repr

def isName (kind : TokenKind) : Bool := kind == .genid || kind == .conid

/-- What a token writes down. That `dim` has no number is known at the token after it. -/
def writtenAt (before : Option TokenKind) (t : Token) : List Written :=
  (if before = some .kwDim ∧ t.kind ≠ .intLiteral then [.noDimension] else []) ++
    if isName t.kind then [.name t.value]
    else if startsConstant t.kind then [.literal before t]
    else []

/-- What tokens write down, given the kind of the token before them. -/
def writtenFrom : Option TokenKind → List Token → List Written
  | _, [] => []
  | before, t :: ts => writtenAt before t ++ writtenFrom (some t.kind) ts

/-- The kind of the last of some tokens, or of the one before them if there are none. -/
def lastKind : Option TokenKind → List Token → Option TokenKind
  | before, [] => before
  | _, t :: ts => lastKind (some t.kind) ts

/-- The constant of a literal in an expression. The sign before it counts only if there is no
constant without it. -/
def exprConstant? (before : Option TokenKind) (t : Token) : Option Const :=
  match constantOf t.kind t.value with
  | .ok value => some value
  | .error _ =>
    if before = some .minus ∧ t.kind = .intLiteral then
      (Text.int64? ('-' :: t.value.toList)).map .int
    else none

/-- The constant of a literal in a pattern. A sign before it always counts. -/
def patternConstant? (before : Option TokenKind) (t : Token) : Option Const :=
  match constantOf t.kind ((before.filter isSign).elim t.value (signedText · t.value)) with
  | .ok value => some value
  | .error _ => none

/-- What tokens write down stands for something that a tree holds. -/
def Denotes : Written → Mention → Prop
  | .name name, .name name' => name = name'
  | .name name, .typeName name' => name = name'
  | .literal before t, .const value => exprConstant? before t = some value
  | .literal before t, .matched value => patternConstant? before t = some value
  | .literal before t, .dimension number =>
    before = some .kwDim ∧ constantOf t.kind t.value = .ok (.int number)
  | .noDimension, .dimension number => number = 1
  | _, _ => False

/-- The names that are keywords for built-in types. -/
def keywordNames : List String := ["int", "bool", "char", "float", "unit"]

/-- Whether a mention has a name or literal token of its own. A type definition may define a
keyword, so that it is refused later on, and the unit constant is a pair of parentheses. -/
def Mention.hasToken : Mention → Bool
  | .typeName text => !keywordNames.contains text
  | .const .unit => false
  | _ => true

/-- In the tokens of a text keywords are no names. -/
structure KeywordsApart (ts : List Token) : Prop where
  names : ∀ t ∈ ts, t.kind = .genid → t.value ∉ keywordNames
  keywords : ∀ t ∈ ts, t.kind ∈ typeNameKinds → t.kind ≠ .genid → t.value ∈ keywordNames

/-- After such a token no literal has a sign and no `dim` is open. -/
def Quiet (before : Option TokenKind) : Prop :=
  ∀ kind ∈ before, isSign kind = false ∧ kind ≠ .kwDim

variable {ts us : List Token} {ps qs : List Part} {t : Token} {before : Option TokenKind}

lemma Quiet.ne_dim (h : Quiet before) : before ≠ some .kwDim := by
  rintro rfl
  exact (h .kwDim rfl).2 rfl

lemma quiet_some (hsign : isSign kind = false) (hdim : kind ≠ .kwDim) : Quiet (some kind) := by
  intro kind' h
  cases h
  exact ⟨hsign, hdim⟩

lemma KeywordsApart.of_append (h : KeywordsApart (ts ++ us)) :
    KeywordsApart ts ∧ KeywordsApart us :=
  ⟨⟨fun t ht => h.names t (List.mem_append_left _ ht),
      fun t ht => h.keywords t (List.mem_append_left _ ht)⟩,
    fun t ht => h.names t (List.mem_append_right _ ht),
    fun t ht => h.keywords t (List.mem_append_right _ ht)⟩

lemma writtenFrom_append (before : Option TokenKind) (ts us : List Token) :
    writtenFrom before (ts ++ us) =
      writtenFrom before ts ++ writtenFrom (lastKind before ts) us := by
  induction ts generalizing before with
  | nil => rfl
  | cons t ts ih =>
    rw [List.cons_append, writtenFrom, writtenFrom, ih, List.append_assoc]
    rfl

lemma lastKind_append (before : Option TokenKind) (ts us : List Token) :
    lastKind before (ts ++ us) = lastKind (lastKind before ts) us := by
  induction ts generalizing before with
  | nil => rfl
  | cons t ts ih => exact ih _

lemma isMark_iff : isMark kind = true ↔
    isName kind = false ∧ kind ≠ .kwDim ∧ startsConstant kind = false ∧ isSign kind = false := by
  cases kind <;> decide

lemma quiet_of_isMark (h : isMark kind = true) : Quiet (some kind) := by
  obtain ⟨-, hdim, -, hsign⟩ := isMark_iff.mp h
  exact quiet_some hsign hdim

lemma quiet_of_isName (h : isName kind = true) : Quiet (some kind) := by
  have hother : isSign kind = false ∧ kind ≠ .kwDim := by
    revert h
    cases kind <;> decide
  exact quiet_some hother.1 hother.2

lemma quiet_of_startsConstant (h : startsConstant kind = true) : Quiet (some kind) := by
  have hother : isSign kind = false ∧ kind ≠ .kwDim := by
    revert h
    cases kind <;> decide
  exact quiet_some hother.1 hother.2

lemma writtenAt_of_ne_dim (h : before ≠ some .kwDim) :
    writtenAt before t =
      if isName t.kind then [.name t.value]
      else if startsConstant t.kind then [.literal before t]
      else [] := by
  rw [writtenAt, if_neg (fun hdim => h hdim.1)]
  rfl

lemma writtenAt_mark (h : before ≠ some .kwDim) (hmark : isMark t.kind = true) :
    writtenAt before t = [] := by
  obtain ⟨hname, -, hconstant, -⟩ := isMark_iff.mp hmark
  simp [writtenAt_of_ne_dim h, hname, hconstant]

lemma writtenAt_sign (h : before ≠ some .kwDim) (hsign : isSign t.kind = true) :
    writtenAt before t = [] := by
  have hother : isName t.kind = false ∧ startsConstant t.kind = false := by
    revert hsign
    cases t.kind <;> decide
  simp [writtenAt_of_ne_dim h, hother]

lemma writtenAt_name (h : before ≠ some .kwDim) (hname : isName t.kind = true) :
    writtenAt before t = [.name t.value] := by
  simp [writtenAt_of_ne_dim h, hname]

lemma writtenAt_literal (h : before ≠ some .kwDim) (hconstant : startsConstant t.kind = true) :
    writtenAt before t = [.literal before t] := by
  have hname : isName t.kind = false := by
    revert hconstant
    cases t.kind <;> decide
  simp [writtenAt_of_ne_dim h, hname, hconstant]

lemma writtenAt_dim (h : before ≠ some .kwDim) (hkind : t.kind = .kwDim) :
    writtenAt before t = [] := by
  simp [writtenAt_of_ne_dim h, hkind, isName, startsConstant]

lemma constantOf_ne_unit {text : String} : constantOf kind text ≠ .ok .unit := by
  unfold constantOf
  split <;> (try split) <;> simp

/-- The tokens of a type are names and what holds them together. -/
lemma TypeSpelled.tokens {ty : Ty} (h : TypeSpelled ts ty) :
    ts ≠ [] ∧ ∀ t ∈ ts, isMark t.kind = true ∨ t.kind = .genid := by
  induction h with
  | @keyword t ty h =>
    have hmark : isMark t.kind = true := by
      revert h
      cases t.kind <;> simp [keywordType?, isMark, startsConstant, isSign]
    exact ⟨List.cons_ne_nil _ _, List.forall_mem_singleton.mpr (.inl hmark)⟩
  | named h => exact ⟨List.cons_ne_nil _ _, List.forall_mem_singleton.mpr (.inr h)⟩
  | parens hfirst _ hlast ih =>
    refine ⟨List.cons_ne_nil _ _, List.forall_mem_cons.mpr ⟨.inl (isMark_of hfirst rfl), ?_⟩⟩
    exact List.forall_mem_append.mpr
      ⟨ih.2, List.forall_mem_singleton.mpr (.inl (isMark_of hlast rfl))⟩
  | ref _ h ih =>
    exact ⟨List.append_ne_nil_of_left_ne_nil ih.1 _, List.forall_mem_append.mpr
      ⟨ih.2, List.forall_mem_singleton.mpr (.inl (isMark_of h rfl))⟩⟩
  | func _ h _ ihleft ihright =>
    refine ⟨List.append_ne_nil_of_right_ne_nil _ ihright.1, ?_⟩
    rw [List.forall_mem_append, List.forall_mem_append, List.forall_mem_singleton]
    exact ⟨⟨ihleft.2, .inl (isMark_of h rfl)⟩, ihright.2⟩
  | array hfirst hdims hmiddle _ ih =>
    refine ⟨List.append_ne_nil_of_right_ne_nil _ ih.1, ?_⟩
    rw [List.forall_mem_append, List.forall_mem_append, List.forall_mem_append,
      List.forall_mem_singleton, List.forall_mem_singleton]
    exact ⟨⟨⟨.inl (isMark_of hfirst rfl), fun t ht => .inl (hdims.1 t ht)⟩,
      .inl (isMark_of hmiddle rfl)⟩, ih.2⟩

/-- A name that is no keyword stays the same as a type. -/
lemma typeNames_namedType {name : String} (h : name ∉ keywordNames) :
    typeNames (namedType name) = [name] := by
  unfold namedType
  cases hfind : Ty.builtin? name with
  | none => rfl
  | some ty =>
    unfold Ty.builtin? at hfind
    have hfound := List.find?_some hfind
    have hname : ty.name? = some name := eq_of_beq hfound
    have hmem := List.mem_of_find?_eq_some hfind
    simp only [Ty.builtins, List.mem_cons, List.not_mem_nil, or_false] at hmem
    rcases hmem with rfl | rfl | rfl | rfl | rfl | rfl <;> cases hname <;>
      first | rfl | exact absurd h (by decide)

/-- The names among tokens. -/
def namesOf (ts : List Token) : List String := (ts.filter fun t => isName t.kind).map Token.value

lemma namesOf_append (ts us : List Token) : namesOf (ts ++ us) = namesOf ts ++ namesOf us := by
  rw [namesOf, List.filter_append, List.map_append]
  rfl

lemma namesOf_name (h : isName t.kind = true) : namesOf [t] = [t.value] := by
  simp [namesOf, h]

lemma namesOf_marks (h : ∀ t ∈ ts, isMark t.kind = true) : namesOf ts = [] := by
  rw [namesOf, List.filter_eq_nil_iff.mpr, List.map_nil]
  intro t ht
  simp [(isMark_iff.mp (h t ht)).1]

lemma namesOf_mark (h : t.kind = kind) (hmark : isMark kind = true) : namesOf [t] = [] :=
  namesOf_marks (List.forall_mem_singleton.mpr (isMark_of h hmark))

lemma TypeSpelled.namesOf_eq {ty : Ty} (h : TypeSpelled ts ty) (hapart : KeywordsApart ts) :
    namesOf ts = typeNames ty := by
  induction h with
  | @keyword t ty h =>
    have hkind : isMark t.kind = true ∧ typeNames ty = [] := by
      revert h
      cases t.kind <;> simp [keywordType?, isMark, startsConstant, isSign] <;> rintro rfl <;> rfl
    rw [hkind.2, namesOf_mark rfl hkind.1]
  | @named t h =>
    rw [typeNames_namedType (hapart.names t (List.mem_singleton_self t) h)]
    exact namesOf_name (by rw [h]; rfl)
  | parens hfirst _ hlast ih =>
    obtain ⟨hfront, -⟩ := hapart.of_append
    rw [← List.singleton_append] at hfront ⊢
    rw [namesOf_append, namesOf_append, namesOf_mark hfirst rfl, namesOf_mark hlast rfl,
      ih hfront.of_append.2, List.append_nil, List.nil_append]
  | ref _ h ih =>
    rw [namesOf_append, namesOf_mark h rfl, ih hapart.of_append.1, List.append_nil]
    rfl
  | func _ h _ ihleft ihright =>
    obtain ⟨hfront, hright⟩ := hapart.of_append
    rw [namesOf_append, namesOf_append, namesOf_mark h rfl, ihleft hfront.of_append.1,
      ihright hright, List.append_nil]
    rfl
  | array hfirst hdims hmiddle _ ih =>
    rw [namesOf_append, namesOf_append, namesOf_append, namesOf_mark hfirst rfl,
      namesOf_marks hdims.1, namesOf_mark hmiddle rfl, ih hapart.of_append.2]
    rfl

/-- Between names and what holds them together only the names are written down. -/
lemma writtenFrom_names (h : ∀ t ∈ ts, isMark t.kind = true ∨ t.kind = .genid)
    (hbefore : before ≠ some .kwDim) : writtenFrom before ts = (namesOf ts).map .name := by
  induction ts generalizing before with
  | nil => rfl
  | cons t ts ih =>
    obtain ⟨ht, hts⟩ := List.forall_mem_cons.mp h
    rw [writtenFrom, ← List.singleton_append, namesOf_append, List.map_append]
    rcases ht with hmark | hkind
    · rw [ih hts (quiet_of_isMark hmark).ne_dim, writtenAt_mark hbefore hmark,
        namesOf_mark rfl hmark]
      rfl
    · have hname : isName t.kind = true := by rw [hkind]; rfl
      rw [ih hts (quiet_of_isName hname).ne_dim, writtenAt_name hbefore hname, namesOf_name hname]
      rfl

lemma lastKind_quiet (before : Option TokenKind)
    (h : ∀ t ∈ ts, isMark t.kind = true ∨ t.kind = .genid) (hne : ts ≠ []) :
    Quiet (lastKind before ts) := by
  induction ts generalizing before with
  | nil => exact absurd rfl hne
  | cons t ts ih =>
    obtain ⟨ht, hts⟩ := List.forall_mem_cons.mp h
    cases ts with
    | nil =>
      rcases ht with hmark | hkind
      · exact quiet_of_isMark hmark
      · exact quiet_of_isName (by rw [hkind]; rfl)
    | cons t' ts => exact ih (some t.kind) hts (List.cons_ne_nil _ _)

/-- Whether a part starts with a pattern, so that a sign before it would belong to it. -/
def startsPattern : Part → Bool
  | .matched _ | .node (.pattern _) | .node (.clause _) => true
  | _ => false

/-- Nothing before the parts can be taken for a part of the first one. -/
def Free (before : Option TokenKind) (ps : List Part) : Prop :=
  before ≠ some .kwDim ∧ ∀ part ∈ ps.head?, startsPattern part = true → Quiet before

lemma Quiet.free (h : Quiet before) (ps : List Part) : Free before ps := ⟨h.ne_dim, fun _ _ _ => h⟩

/-- The parts of a node start with a pattern only if the node does. -/
lemma startsPattern_of_head {part : Part} (hpart : (parts n).head? = some part)
    (hstarts : startsPattern part = true) : startsPattern (.node n) = true := by
  have hlist : ∀ {α : Type} (f : α → Node) (l : List α),
      (∀ a, startsPattern (.node (f a)) = false) →
      (l.map fun a => Part.node (f a)).head? = some part → False := by
    intro α f l hf hhead
    rw [List.head?_map] at hhead
    obtain ⟨a, -, rfl⟩ := Option.map_eq_some_iff.mp hhead
    rw [hf a] at hstarts
    cases hstarts
  cases n with
  | letGroup g => exact (hlist _ g.defs (fun _ => rfl) hpart).elim
  | typeGroup g => exact (hlist _ g.defs (fun _ => rfl) hpart).elim
  | clause c => rfl
  | pattern p => rfl
  | definition d => cases d <;> cases hpart <;> cases hstarts
  | expr e => cases e <;> cases hpart <;> cases hstarts
  | param p =>
    cases hpart
    cases hstarts
  | typeDef d =>
    cases hpart
    cases hstarts
  | constructor c =>
    cases hpart
    cases hstarts

lemma Free.of_node (h : Free before (.node n :: ps)) : Free before (parts n) :=
  ⟨h.1, fun _ hpart hstarts => h.2 _ rfl (startsPattern_of_head hpart hstarts)⟩

/-- What holds of parts in their order and has a token. -/
def writtenMentions (ps : List Part) : List Mention :=
  (ps.flatMap partMentions).filter Mention.hasToken

lemma writtenMentions_append (ps qs : List Part) :
    writtenMentions (ps ++ qs) = writtenMentions ps ++ writtenMentions qs := by
  rw [writtenMentions, List.flatMap_append, List.filter_append]
  rfl

lemma forall₂_one {w : Written} {m : Mention} (h : Denotes w m) : List.Forall₂ Denotes [w] [m] :=
  .cons h .nil

lemma forall₂_names (names : List String) :
    List.Forall₂ Denotes (names.map .name) (names.map .name) := by
  induction names with
  | nil => exact .nil
  | cons name names ih => exact .cons rfl ih

lemma exprConstant?_of_ok (h : constantOf t.kind t.value = .ok value) :
    exprConstant? before t = some value := by
  rw [exprConstant?, h]

lemma exprConstant?_least {n : Int} (hkind : t.kind = .intLiteral)
    (hnone : Text.int64? t.value.toList = none) (h : Text.int64? ('-' :: t.value.toList) = some n) :
    exprConstant? (some .minus) t = some (.int n) := by
  have herror : constantOf t.kind t.value = .error "integer literal out of range" := by
    rw [hkind, constantOf, hnone]
  rw [exprConstant?, herror, if_pos ⟨rfl, hkind⟩, h]
  rfl

lemma patternConstant?_quiet (hquiet : Quiet before) (h : constantOf t.kind t.value = .ok value) :
    patternConstant? before t = some value := by
  have hnone : before.filter isSign = none := by
    cases before with
    | none => rfl
    | some kind => simp [(hquiet kind rfl).1]
  rw [patternConstant?, hnone, Option.elim_none, h]

lemma patternConstant?_sign {sign : TokenKind} (hsign : isSign sign = true)
    (h : constantOf t.kind (signedText sign t.value) = .ok value) :
    patternConstant? (some sign) t = some value := by
  have hsome : (some sign).filter isSign = some sign := by simp [hsign]
  rw [patternConstant?, hsome, Option.elim_some, h]

lemma hasToken_const {text : String} (h : constantOf kind text = .ok value) :
    Mention.hasToken (.const value) = true := by
  cases value with
  | unit => exact absurd h constantOf_ne_unit
  | _ => rfl

/-- The tokens of parts that are no nodes write down just what these hold. -/
lemma Spelling.denotes (h : Spelling ts ps) (hapart : KeywordsApart ts) (hfree : Free before ps) :
    List.Forall₂ Denotes (writtenFrom before ts) (writtenMentions ps) := by
  obtain ⟨hdim, hquiet⟩ := hfree
  cases h with
  | @name t h =>
    have hname : isName t.kind = true := by rcases h with h | h <;> rw [h] <;> rfl
    rw [writtenFrom, writtenAt_name hdim hname]
    exact forall₂_one rfl
  | @typeName t h =>
    by_cases hgenid : t.kind = .genid
    · have hkeyword := hapart.names t (List.mem_singleton_self t) hgenid
      rw [writtenFrom, writtenAt_name hdim (by rw [hgenid]; rfl)]
      have hmention : writtenMentions [.typeName t.value] = [.typeName t.value] := by
        simp [writtenMentions, partMentions, Mention.hasToken, hkeyword]
      rw [hmention]
      exact forall₂_one rfl
    · have hkeyword := hapart.keywords t (List.mem_singleton_self t) h hgenid
      have hmark : isMark t.kind = true := by
        revert h hgenid
        cases t.kind <;> decide
      have hmention : writtenMentions [.typeName t.value] = [] := by
        simp [writtenMentions, partMentions, Mention.hasToken, hkeyword]
      rw [writtenFrom, writtenAt_mark hdim hmark, hmention]
      exact .nil
  | @const t value h =>
    have hmention : writtenMentions [.const value] = [.const value] := by
      simp [writtenMentions, partMentions, hasToken_const h]
    rw [writtenFrom, writtenAt_literal hdim (startsConstant_of_constantOf h), hmention]
    exact forall₂_one (exprConstant?_of_ok h)
  | @least sign t n hsign hkind hnone h =>
    have hliteral : startsConstant t.kind = true := by rw [hkind]; rfl
    have hminus : some TokenKind.minus ≠ some .kwDim := by decide
    rw [writtenFrom, writtenFrom, writtenAt_sign hdim (by rw [hsign]; rfl), hsign,
      writtenAt_literal hminus hliteral]
    exact forall₂_one (exprConstant?_least hkind hnone h)
  | unit hfirst hlast =>
    have hmark := isMark_of hfirst rfl
    rw [writtenFrom, writtenFrom, writtenAt_mark hdim hmark,
      writtenAt_mark (quiet_of_isMark hmark).ne_dim (isMark_of hlast rfl)]
    exact .nil
  | @matched t value h =>
    rw [writtenFrom, writtenAt_literal hdim (startsConstant_of_constantOf h)]
    exact forall₂_one (patternConstant?_quiet (hquiet _ rfl rfl) h)
  | @signed sign t value hsign h =>
    have hne : some sign.kind ≠ some .kwDim := by
      intro hdim
      rw [Option.some.inj hdim] at hsign
      cases hsign
    rw [writtenFrom, writtenFrom, writtenAt_sign hdim hsign,
      writtenAt_literal hne (startsConstant_of_constantOf h)]
    exact forall₂_one (patternConstant?_sign hsign h)
  | @dim first t hfirst h =>
    have hopen : writtenAt (some .kwDim) t = [.noDimension, .name t.value] := by
      simp [writtenAt, h, isName]
    rw [writtenFrom, writtenFrom, writtenAt_dim hdim hfirst, hfirst, hopen]
    exact .cons rfl (forall₂_one rfl)
  | @dimAt first number t n hfirst hnumber hn h =>
    have hliteral : writtenAt (some .kwDim) number = [.literal (some .kwDim) number] := by
      simp [writtenAt, hnumber, isName, startsConstant]
    have hname : writtenAt (some .intLiteral) t = [.name t.value] :=
      writtenAt_name (by decide) (by rw [h]; rfl)
    rw [writtenFrom, writtenFrom, writtenFrom, writtenAt_dim hdim hfirst, hfirst, hliteral, hnumber,
      hname]
    refine .cons ⟨rfl, ?_⟩ (forall₂_one rfl)
    rw [hnumber, constantOf, hn]
  | @ty ts ty h =>
    have hmention : writtenMentions [.ty ty] = (typeNames ty).map .name := by
      rw [writtenMentions, List.flatMap_cons, List.flatMap_nil, List.append_nil]
      exact List.filter_eq_self.mpr fun m hm => by
        obtain ⟨name, -, rfl⟩ := List.mem_map.mp hm
        rfl
    rw [writtenFrom_names h.tokens.2 hdim, h.namesOf_eq hapart, hmention]
    exact forall₂_names _

lemma Spelling.ne_nil (h : Spelling ts ps) : ts ≠ [] := by
  cases h with
  | ty h => exact h.tokens.1
  | _ => exact List.cons_ne_nil _ _

lemma Spelling.parts_ne_nil (h : Spelling ts ps) : ps ≠ [] := by
  cases h <;> exact List.cons_ne_nil _ _

/-- Spellings end with a name, a literal or a symbol. -/
lemma Spelling.quiet (before : Option TokenKind) (h : Spelling ts ps) :
    Quiet (lastKind before ts) := by
  have hgenid : Quiet (some .genid) := quiet_of_isName rfl
  cases h with
  | name h => exact quiet_of_isName (by rcases h with h | h <;> rw [h] <;> rfl)
  | @typeName t h =>
    have hother : isSign t.kind = false ∧ t.kind ≠ .kwDim := by
      revert h
      cases t.kind <;> decide
    exact quiet_some hother.1 hother.2
  | const h => exact quiet_of_startsConstant (startsConstant_of_constantOf h)
  | least _ hkind => exact quiet_of_startsConstant (by rw [hkind]; rfl)
  | unit _ hlast => exact quiet_of_isMark (isMark_of hlast rfl)
  | matched h => exact quiet_of_startsConstant (startsConstant_of_constantOf h)
  | signed _ h => exact quiet_of_startsConstant (startsConstant_of_constantOf h)
  | dim _ h => exact quiet_of_isName (by rw [h]; rfl)
  | dimAt _ _ _ h => exact quiet_of_isName (by rw [h]; rfl)
  | ty h => exact lastKind_quiet before h.tokens.2 h.tokens.1

/-- A node has a token, since its span starts at one. -/
lemma ne_nil_of_bounds (h : parts n ≠ [] → ts ≠ []) (hbounds : Bounds ts n) : ts ≠ [] := by
  rcases hbounds.start with ⟨t, ht, -⟩ | ⟨m, hm, -⟩
  · rintro rfl
    cases ht
  · refine h ?_
    rintro hnil
    rw [hnil] at hm
    cases hm

lemma Woven.ne_nil (h : Woven ts ps) (hne : ps ≠ []) : ts ≠ [] := by
  induction h with
  | nil => exact absurd rfl hne
  | mark => exact List.cons_ne_nil _ _
  | sign => exact List.cons_ne_nil _ _
  | spelled hspelled => exact List.append_ne_nil_of_left_ne_nil hspelled.ne_nil _
  | node _ hbounds _ ih =>
    exact List.append_ne_nil_of_left_ne_nil (ne_nil_of_bounds ih hbounds) _

/-- Woven tokens end with a name, a literal or a symbol. -/
lemma Woven.quiet (h : Woven ts ps) (before : Option TokenKind) (hne : ts ≠ []) :
    Quiet (lastKind before ts) := by
  induction h generalizing before with
  | nil => exact absurd rfl hne
  | @mark t ts _ hmark _ ih =>
    by_cases hts : ts = []
    · subst hts
      exact quiet_of_isMark hmark
    · exact ih (some t.kind) hts
  | @sign t _ _ _ _ hrest ih => exact ih (some t.kind) (hrest.ne_nil (List.cons_ne_nil _ _))
  | @spelled us ts _ _ hspelled _ ih =>
    rw [lastKind_append]
    by_cases hts : ts = []
    · subst hts
      exact hspelled.quiet before
    · exact ih _ hts
  | @node us ts _ _ hinside hbounds _ ihinside ih =>
    rw [lastKind_append]
    by_cases hts : ts = []
    · subst hts
      exact ihinside before (ne_nil_of_bounds hinside.ne_nil hbounds)
    · exact ih _ hts

/-- Woven tokens write down what their parts hold, one for one. -/
lemma Woven.denotes (h : Woven ts ps) (hapart : KeywordsApart ts) (hfree : Free before ps) :
    List.Forall₂ Denotes (writtenFrom before ts) (writtenMentions ps) := by
  induction h generalizing before with
  | nil => exact .nil
  | @mark t ts ps hmark _ ih =>
    rw [← List.singleton_append] at hapart
    rw [writtenFrom, writtenAt_mark hfree.1 hmark]
    exact ih hapart.of_append.2 ((quiet_of_isMark hmark).free ps)
  | @sign t ts e ps hsign _ ih =>
    rw [← List.singleton_append] at hapart
    have hdim : some t.kind ≠ some .kwDim := by
      intro hdim
      rw [Option.some.inj hdim] at hsign
      cases hsign
    rw [writtenFrom, writtenAt_sign hfree.1 hsign]
    refine ih hapart.of_append.2 ⟨hdim, fun part hpart hstarts => ?_⟩
    cases hpart
    cases hstarts
  | @spelled us ts qs ps hspelled _ ih =>
    obtain ⟨hus, hts⟩ := hapart.of_append
    rw [writtenFrom_append, writtenMentions_append]
    refine List.rel_append (hspelled.denotes hus ⟨hfree.1, fun part hpart => hfree.2 part ?_⟩)
      (ih hts ((hspelled.quiet before).free ps))
    rwa [List.head?_append_of_ne_nil _ hspelled.parts_ne_nil]
  | @node us ts n ps hinside hbounds _ ihinside ih =>
    obtain ⟨hus, hts⟩ := hapart.of_append
    have hmentions : writtenMentions (.node n :: ps) =
        writtenMentions (parts n) ++ writtenMentions ps := by
      rw [← List.singleton_append, writtenMentions_append]
      simp only [writtenMentions, List.flatMap_cons, List.flatMap_nil, List.append_nil,
        partMentions, nodeMentions_eq]
    have hquiet := hinside.quiet before (ne_nil_of_bounds hinside.ne_nil hbounds)
    rw [writtenFrom_append, hmentions]
    exact List.rel_append (ihinside hus hfree.of_node) (ih hts (hquiet.free ps))

lemma keywordsApart_of_lex {source : String} (h : Token.lex source = .ok ts) :
    KeywordsApart ts where
  names t ht hkind hmem := by
    have hgenid := isLexeme_of_lex h ht (.inl hkind)
    have hkeyword : ∀ (kind : TokenKind) text, kind.text = some text → t.value = text →
        kind = .genid := by
      intro kind text htext hvalue
      have hlexeme := isLexeme_spelling htext
      rw [IsLexeme, ← hvalue, hgenid, hkind] at hlexeme
      exact (Prod.mk.inj (Option.some.inj hlexeme)).1.symm
    simp only [keywordNames, List.mem_cons, List.not_mem_nil, or_false] at hmem
    rcases hmem with hvalue | hvalue | hvalue | hvalue | hvalue
    · cases hkeyword .kwInt _ rfl hvalue
    · cases hkeyword .kwBool _ rfl hvalue
    · cases hkeyword .kwChar _ rfl hvalue
    · cases hkeyword .kwFloat _ rfl hvalue
    · cases hkeyword .kwUnit _ rfl hvalue
  keywords t ht hmem hne := by
    have htext : ∃ text ∈ keywordNames, t.kind.text = some text := by
      revert hmem hne
      cases t.kind <;> decide
    obtain ⟨text, hkeyword, htext⟩ := htext
    rwa [value_of_lex h ht htext]

/-- The name that is written down, if any. -/
def Written.name? : Written → Option String
  | .name text => some text
  | _ => none

/-- The name that a tree holds, if any. -/
def Mention.name? : Mention → Option String
  | .name text | .typeName text => some text
  | _ => none

/-- The literals among tokens, each with the kind of the token before it, and for each `dim` without
a number that there is none. -/
def literalsOf (ts : List Token) : List Written :=
  (writtenFrom none ts).filter fun w => w.name?.isNone

/-- The constants and dimensions among mentions. -/
def constantsOf (ms : List Mention) : List Mention := ms.filter fun m => m.name?.isNone

lemma namesOf_eq_writtenFrom (before : Option TokenKind) (ts : List Token) :
    (writtenFrom before ts).filterMap Written.name? = namesOf ts := by
  induction ts generalizing before with
  | nil => rfl
  | cons t ts ih =>
    have hat : (writtenAt before t).filterMap Written.name? = namesOf [t] := by
      have hopen : (if before = some .kwDim ∧ t.kind ≠ .intLiteral then [Written.noDimension]
          else []).filterMap Written.name? = [] := by
        split <;> rfl
      rw [writtenAt, List.filterMap_append, hopen, List.nil_append]
      by_cases hname : isName t.kind = true
      · rw [if_pos hname, namesOf_name hname]
        rfl
      · have hnone : namesOf [t] = [] := by simp [namesOf, hname]
        rw [if_neg hname, hnone]
        split <;> rfl
    rw [writtenFrom, List.filterMap_append, hat, ih]
    exact (namesOf_append [t] ts).symm

/-- A name stands for a name, and anything else for something else. -/
lemma Denotes.name? {w : Written} {m : Mention} (h : Denotes w m) : w.name? = m.name? := by
  cases w <;> cases m <;> first | exact congrArg some h | rfl | cases h

lemma forall₂_names_constants {ws : List Written} {ms : List Mention}
    (h : List.Forall₂ Denotes ws ms) :
    ws.filterMap Written.name? = ms.filterMap Mention.name? ∧
      List.Forall₂ Denotes (ws.filter fun w => w.name?.isNone) (constantsOf ms) := by
  induction h with
  | nil => exact ⟨rfl, .nil⟩
  | @cons w m ws ms hw _ ih =>
    obtain ⟨hnames, hconstants⟩ := ih
    refine ⟨by rw [List.filterMap_cons, List.filterMap_cons, hw.name?, hnames], ?_⟩
    rw [constantsOf, List.filter_cons, List.filter_cons, hw.name?]
    split
    · exact .cons hw hconstants
    · exact hconstants

/-- In a program that is read from a text, the names in the order of the source are the names among
the tokens, and the constants and dimensions are those that the literals stand for. This leaves out
keywords as names of type definitions and unit constants. -/
theorem names_and_constants_kept {source : String} {tokens : List Token} {program : Program}
    (hlex : Token.lex source = .ok tokens) (hparse : (parse tokens).program = some program) :
    namesOf tokens =
        ((programMentions program).filter Mention.hasToken).filterMap Mention.name? ∧
      List.Forall₂ Denotes (literalsOf tokens)
        (constantsOf ((programMentions program).filter Mention.hasToken)) := by
  have hmentions : writtenMentions (program.definitions.map fun d => .node (definitionNode d)) =
      (programMentions program).filter Mention.hasToken := by
    rw [writtenMentions, programMentions, List.flatMap_map]
    congr 2
    funext d
    cases d <;> rfl
  have hfree : Free none (program.definitions.map fun d => .node (definitionNode d)) :=
    Quiet.free (fun _ h => absurd h (Option.not_mem_none _)) _
  have hdenotes := (woven_of_parse hparse).denotes (keywordsApart_of_lex hlex) hfree
  rw [hmentions] at hdenotes
  rw [← namesOf_eq_writtenFrom none]
  exact forall₂_names_constants hdenotes

/-- A sign that is folded in a pattern, one that is folded into a least integer, one that is not,
and a `dim` without a number. -/
def signedSource : String :=
  "type t = Leaf of string\nlet f a = match dim a with -1 -> - 2 | n -> -9223372036854775808 end"

theorem names_and_constants_signedSource :
    ∃ tokens program, Token.lex signedSource = .ok tokens ∧
      (parse tokens).program = some program ∧
      programMentions program =
        [.typeName "t", .name "Leaf", .name "string", .name "f", .name "a", .dimension 1, .name "a",
          .matched (.int (-1)), .const (.int 2), .name "n", .const (.int (-9223372036854775808))] ∧
      namesOf tokens = ["t", "Leaf", "string", "f", "a", "a", "n"] ∧
      List.Forall₂ Denotes (literalsOf tokens)
        [.dimension 1, .matched (.int (-1)), .const (.int 2),
          .const (.int (-9223372036854775808))] := by
  have hread : (programOf? signedSource).map (fun read => programMentions read.2) = some
      [.typeName "t", .name "Leaf", .name "string", .name "f", .name "a", .dimension 1, .name "a",
        .matched (.int (-1)), .const (.int 2), .name "n",
        .const (.int (-9223372036854775808))] := by
    decide +kernel
  obtain ⟨⟨tokens, program⟩, hprogram, hmentions⟩ := Option.map_eq_some_iff.mp hread
  obtain ⟨hlex, hparse⟩ := exists_of_programOf? hprogram
  have hkept := names_and_constants_kept hlex hparse
  dsimp only at hmentions
  rw [hmentions] at hkept
  exact ⟨tokens, program, hlex, hparse, hmentions, hkept⟩

/-- A type that is named by a keyword and a unit constant. -/
def tokenlessSource : String := "type int = A\nlet u = ()"

/-- The tree holds the name `int` and a constant, but among the tokens there is no such name and no
literal. -/
theorem tokenless_name_and_constant :
    ∃ tokens program, Token.lex tokenlessSource = .ok tokens ∧
      (parse tokens).program = some program ∧
      programMentions program = [.typeName "int", .name "A", .name "u", .const .unit] ∧
      namesOf tokens = ["A", "u"] ∧ literalsOf tokens = [] := by
  have hread : (programOf? tokenlessSource).map
      (fun read => (programMentions read.2, namesOf read.1, literalsOf read.1)) =
        some ([.typeName "int", .name "A", .name "u", .const .unit], ["A", "u"], []) := by
    decide +kernel
  obtain ⟨⟨tokens, program⟩, hprogram, hshown⟩ := Option.map_eq_some_iff.mp hread
  obtain ⟨hlex, hparse⟩ := exists_of_programOf? hprogram
  obtain ⟨hmentions, hrest⟩ := Prod.mk.inj hshown
  obtain ⟨hnames, hliterals⟩ := Prod.mk.inj hrest
  exact ⟨tokens, program, hlex, hparse, hmentions, hnames, hliterals⟩

end Llama.Proofs
