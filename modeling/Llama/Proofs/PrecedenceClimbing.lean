import Llama.Proofs.OperatorTrees
import Llama.Proofs.PartReading

/-!
# Climbing by rank

A chain is an operand, then operators, each with an operand of one token after it. Climbing reads
a chain into the one tree that is grouped by rank, or fails at the first operator that clashes
with an earlier one. Each right operand is itself a chain read one level deeper, from a higher
rank on; only a power takes a right operand of its own rank, so the levels that a chain needs are
bounded by the ranks and its longest run of powers.
-/

namespace Llama.Proofs

open Llama.Parser Llama.Grammar

/-- The expression that a name or a literal stands for on its own. -/
def operandTree? (w : Word) : Option Expr :=
  if w.1 = .genid then some (.var default w.2)
  else (constantOf w.1 w.2).toOption.map (.const default)

/-- A name or a literal, with its expression. -/
structure Operand where
  word : Word
  tree : Expr
  spelled : operandTree? word = some tree

/-- An operator with the operand after it. -/
structure Link where
  operator : Word
  op : BinaryOp
  spelled : BinaryOp.ofToken? operator.1 = some op
  operand : Operand

namespace Link

def words (link : Link) : List Word := [link.operator, link.operand.word]

def item (link : Link) : BinaryOp × Expr := (link.op, link.operand.tree)

end Link

/-- The operand at the end of a chain. -/
def lastOperand : Operand → List Link → Operand
  | first, [] => first
  | _, link :: links => lastOperand link.operand links

lemma lastOperand_append_cons (first : Operand) (front : List Link) (link : Link)
    (links : List Link) :
    lastOperand first (front ++ link :: links) = lastOperand link.operand links := by
  induction front generalizing first with
  | nil => rfl
  | cons other front ih => exact ih other.operand

/-- What follows a chain is no operator and no argument. -/
def endsChain (k : Option TokenKind) : Prop :=
  k.any startsSimple = false ∧ k.bind BinaryOp.ofToken? = none

/-- The last operand of the chain is a name that what follows makes an array. -/
def Indexes (first : Operand) (links : List Link) (k : Option TokenKind) : Prop :=
  (lastOperand first links).word.1 = .genid ∧ k = some .lBracket

lemma endsOperand_of_ofToken? {kind : TokenKind} {op : BinaryOp}
    (h : BinaryOp.ofToken? kind = some op) : endsOperand (some kind) := by
  revert h
  cases kind <;> first | exact fun _ => ⟨rfl, by decide⟩ | exact nofun

lemma length_flatMap_words (links : List Link) :
    (links.flatMap Link.words).length = 2 * links.length := by
  induction links with
  | nil => rfl
  | cons link links ih =>
    rw [List.flatMap_cons, List.length_append, ih, List.length_cons]
    show 2 + _ = _
    omega

/-- What lies ahead behind an operand and the links after it. -/
lemma ahead_behind {tokens : Array Token} {s s' : ParserState} {first : Operand}
    (front : List Link) {back : List Link} {rest : List Word}
    (h : ahead tokens s = first.word :: ((front ++ back).flatMap Link.words ++ rest))
    (hindex : s'.index = s.index + 1 + 2 * front.length) :
    ahead tokens s' = back.flatMap Link.words ++ rest := by
  have hdrop : ahead tokens s' = (ahead tokens s).drop (2 * front.length + 1) := by
    rw [ahead, ahead, ← List.map_drop, List.drop_drop, hindex]
    congr 2
    omega
  rw [hdrop, h, List.drop_succ_cons, List.flatMap_append, List.append_assoc,
    ← length_flatMap_words, List.drop_left]

section Operands

variable {tokens : Array Token} {s : ParserState} {token : Token}

lemma newSite_run (span : Span) (tokens : Array Token) (s : ParserState) :
    newSite span tokens s = (.ok ⟨s.nextId, span⟩, { s with nextId := s.nextId + 1 }) := rfl

lemma many_run_stop {α : Type} {starts : TokenKind → Bool} {item : Parser α}
    (h : (tokens[s.index]?.map Token.kind).any starts = false) :
    many starts item tokens s = (.ok [], s) := by
  rw [many, bind_run_ok (remaining_run tokens s)]
  cases tokens.size - s.index with
  | zero => rfl
  | succ n =>
    have hstarts : startsWith starts tokens s = (.ok false, s) := by
      rw [← h]
      rfl
    rw [manyUpTo, bind_run_ok hstarts]
    rfl

/-- A name before what is neither an argument nor an index is a variable. -/
lemma primary_run_name (d : Deeper) (hget : tokens[s.index]? = some token)
    (hkind : token.kind = .genid)
    (hends : endsOperand (tokens[s.index + 1]?.map Token.kind)) :
    primary d tokens s = (.ok (.var ⟨s.nextId, token.span⟩ token.value),
      { s with index := s.index + 1, nextId := s.nextId + 1 }) := by
  have hpeek : peekKind tokens s = (.ok (some .genid), s) := by
    rw [peekKind_run_index, hget, Option.map_some, hkind]
  have hnext : peekKindAt 1 tokens s = (.ok (tokens[s.index + 1]?.map Token.kind), s) := rfl
  have hgenid : genid tokens s =
      (.ok (token.value, token.span), { s with index := s.index + 1 }) := by
    rw [genid, bind_run_ok (label_run_ok (expect_run hget hkind))]
    rfl
  rw [primary, bind_run_ok hpeek]
  simp only
  rw [bind_run_ok hnext, if_neg (by simpa using hends.2), variableOrCall, bind_run_ok hgenid]
  simp only
  rw [bind_run_ok (many_run_stop hends.1)]
  simp only
  rw [bind_run_ok (newSite_run _ _ _)]
  rfl

lemma startsConstant_of_constantOf {kind : TokenKind} {text : String} {c : Const}
    (h : constantOf kind text = .ok c) : startsConstant kind = true := by
  unfold constantOf at h
  split at h <;> first | rfl | cases h

lemma constant_run {c : Const} (hget : tokens[s.index]? = some token)
    (hc : constantOf token.kind token.value = .ok c) :
    constant tokens s = (.ok (c, token.span), { s with index := s.index + 1 }) := by
  have hstarts : startsWith startsConstant tokens s = (.ok true, s) := by
    rw [← startsConstant_of_constantOf hc]
    show (Except.ok ((tokens[s.index]?.map Token.kind).any startsConstant), s) = _
    rw [hget]
    rfl
  have herror : errorHere tokens s = (.ok (errorAt tokens s.index), s) := rfl
  rw [constant, bind_run_ok herror, bind_run_ok hstarts]
  simp only [if_true]
  rw [bind_run_ok (advance_run_next hget)]
  simp only [hc]
  rfl

/-- A literal is a constant, whatever follows. -/
lemma primary_run_literal (d : Deeper) {c : Const} (hget : tokens[s.index]? = some token)
    (hc : constantOf token.kind token.value = .ok c) :
    primary d tokens s = (.ok (.const ⟨s.nextId, token.span⟩ c),
      { s with index := s.index + 1, nextId := s.nextId + 1 }) := by
  have hstarts := startsConstant_of_constantOf hc
  have hpeek : peekKind tokens s = (.ok (some token.kind), s) := by
    rw [peekKind_run_index, hget, Option.map_some]
  have hrest : (do let read ← constant; return .const (← newSite read.2) read.1 : Parser Expr)
      tokens s = (.ok (.const ⟨s.nextId, token.span⟩ c),
        { s with index := s.index + 1, nextId := s.nextId + 1 }) := by
    rw [bind_run_ok (constant_run hget hc), bind_run_ok (newSite_run _ _ _)]
    rfl
  rw [primary, bind_run_ok hpeek, simpleExpr]
  revert hstarts hpeek
  cases token.kind <;> intro hstarts hpeek <;>
    first
    | (simp only; rw [bind_run_ok hpeek]; exact hrest)
    | exact absurd hstarts (by decide)

/-- An operand is read into its expression unless it is a name before an index. -/
lemma unary_run_operand (d : Deeper) {a : Operand} {rest : List Word}
    (hahead : ahead tokens s = a.word :: rest)
    (hrest : (firstKind rest none).any startsSimple = false)
    (hindex : ¬ (a.word.1 = .genid ∧ firstKind rest none = some .lBracket)) :
    ∃ e, unary d tokens s = (.ok e, { s with index := s.index + 1, nextId := s.nextId + 1 }) ∧
      inorder e = chainItems a.tree [] := by
  obtain ⟨token, hget, hword, htail⟩ := ahead_eq_cons hahead
  have hkind : a.word.1 = token.kind := by rw [← hword]; rfl
  have hvalue : a.word.2 = token.value := by rw [← hword]; rfl
  have hnext : tokens[s.index + 1]?.map Token.kind = firstKind rest none := by
    rw [← htail, ← nextKind_eq]
  have hpeek : peekKind tokens s = (.ok (some token.kind), s) := by
    rw [peekKind_run_index, hget, Option.map_some]
  -- No operand starts with a prefix operator, so that it is read as a primary expression.
  have hunary (hstarts : startsSimple token.kind = true) :
      unary d tokens s = primary d tokens s := by
    obtain ⟨hdelete, hop⟩ := startsSimple_not_unary hstarts
    rw [unary, bind_run_ok hpeek]
    refine congrFun (congrFun ?_ tokens) s
    split
    next heq => cases heq
    next heq => exact absurd (Option.some.inj heq) hdelete
    next heq => rw [← Option.some.inj heq, hop]
  have hspelled := a.spelled
  rw [operandTree?, hkind, hvalue] at hspelled
  split at hspelled
  next hgenid =>
    rw [hunary (by rw [hgenid]; rfl), primary_run_name d hget hgenid]
    · exact ⟨_, rfl, by rw [← Option.some.inj hspelled]; rfl⟩
    · rw [hnext]
      exact ⟨hrest, fun hbracket => hindex ⟨hkind.trans hgenid, hbracket⟩⟩
  next =>
    obtain ⟨c, hc, htree⟩ := Option.map_eq_some_iff.mp hspelled
    have hok : constantOf token.kind token.value = .ok c := by
      cases hcase : constantOf token.kind token.value with
      | ok value =>
        rw [hcase] at hc
        rw [Option.some.inj hc]
      | error note =>
        rw [hcase] at hc
        cases hc
    have hstarts : startsSimple token.kind = true := by
      unfold startsSimple
      rw [startsConstant_of_constantOf hok, Bool.true_or]
    rw [hunary hstarts, primary_run_literal d hget hok]
    exact ⟨_, rfl, by rw [← htree]; rfl⟩

end Operands

/-- The number of powers that a chain starts with. -/
def powRun (links : List Link) : Nat := ((links.map Link.op).takeWhile (· == .pow)).length

/-- No more than so many powers stand in a row. -/
def ShortRuns (links : List Link) : Prop := ¬ List.replicate 240 .pow <:+: links.map Link.op

/-- The levels suffice for the operators of at least the given rank. A lower rank leaves room for
every run of powers after one level for each higher rank. -/
def Room (levels rank : Nat) (links : List Link) : Prop :=
  if rank < 7 then 246 ≤ levels + rank else powRun links ≤ levels

section Levels

variable {links : List Link} {link : Link} {levels rank : Nat}

lemma ShortRuns.of_append (front : List Link) (h : ShortRuns (front ++ links)) :
    ShortRuns links := by
  intro hrun
  refine h (hrun.trans ?_)
  rw [List.map_append]
  exact (List.suffix_append _ _).isInfix

lemma ShortRuns.powRun_lt (h : ShortRuns links) : powRun links < 240 := by
  by_contra hlong
  have hall : (links.map Link.op).takeWhile (· == .pow) = List.replicate (powRun links) .pow := by
    refine List.eq_replicate_iff.mpr ⟨rfl, fun op hop => ?_⟩
    exact eq_of_beq (List.all_eq_true.mp List.all_takeWhile op hop)
  have hshort : List.replicate 240 BinaryOp.pow <+: List.replicate (powRun links) .pow :=
    ⟨List.replicate (powRun links - 240) .pow, by
      rw [List.replicate_append_replicate, Nat.add_sub_cancel' (by omega)]⟩
  rw [← hall] at hshort
  exact h (hshort.trans (List.takeWhile_prefix _)).isInfix

/-- The room that a chain has holds its right operands one level deeper. -/
lemma Room.rightOperand (h : Room levels rank (link :: links)) (hshort : ShortRuns links)
    (hle : rank ≤ link.op.rank) : ∃ m, levels = m + 1 ∧ Room m link.op.rightRank links := by
  have hrun := hshort.powRun_lt
  have hseven := rank_le_seven link.op
  have hright : ¬ link.op.rightRank < 7 ∨ link.op.rightRank = link.op.rank + 1 := by
    by_cases hpow : link.op = .pow
    · rw [hpow]
      exact .inl (by decide)
    · exact .inr (if_neg fun hassoc => hpow (assoc_eq_right_iff.mp hassoc))
  unfold Room at h
  split at h
  next hlow =>
    obtain ⟨m, rfl⟩ : ∃ m, levels = m + 1 := ⟨levels - 1, by omega⟩
    refine ⟨m, rfl, ?_⟩
    unfold Room
    split <;> omega
  next hhigh =>
    have hpow : link.op = .pow := eq_pow_iff.mpr (by omega)
    have hcount : powRun (link :: links) = powRun links + 1 := by
      simp [powRun, hpow]
    obtain ⟨m, rfl⟩ : ∃ m, levels = m + 1 := ⟨levels - 1, by omega⟩
    refine ⟨m, rfl, ?_⟩
    rw [Room, hpow, if_neg (by decide)]
    omega

/-- Operators that are left over for a lower rank need no room. -/
lemma Room.rest (front : List Link) (h : Room levels rank (front ++ links))
    (hstop : ∀ link ∈ links.head?, link.op.rank < 7) : Room levels rank links := by
  have hzero : powRun links = 0 := by
    cases links with
    | nil => rfl
    | cons link links =>
      have hlt := hstop link rfl
      have hpow : link.op ≠ .pow := fun hpow => by
        have hseven := eq_pow_iff.mp hpow
        omega
      simp [powRun, hpow]
  unfold Room at h ⊢
  split at h
  next hlow =>
    rw [if_pos hlow]
    exact h
  next hhigh =>
    rw [if_neg hhigh, hzero]
    exact Nat.zero_le _

end Levels

/-! ### What climbing makes of a chain -/

/-- The error at an operator that cannot be chained. -/
def clashError (tokens : Array Token) (index : Nat) (op : BinaryOp) : SyntaxError :=
  (errorAt tokens index).noting ("operator '" ++ op.symbol ++ "' is not associative")

/-- The expression is the tree of an operand and the links after it, which all have at least the
given rank and do not clash. -/
structure Climbed (rank : Nat) (first : Operand) (links : List Link) (e : Expr) : Prop where
  read : inorder e = chainItems first.tree (links.map Link.item)
  grouped : Grouped e
  free : ClashFree (links.map Link.op)
  ranks : ∀ link ∈ links, rank ≤ link.op.rank

/-- How reading a chain from a state on ends: with the tree of all links up to the first one of a
lower rank, or with an error at the first clash before it. What happens after a name that turns
out to be an array is left open. -/
inductive Climbs (tokens : Array Token) (s : ParserState) (rank : Nat) (first : Operand)
    (links : List Link) (follow : Option TokenKind) :
    Except SyntaxError Expr × ParserState → Prop
  | tree {front back : List Link} {e : Expr} {index : Nat} {id : NodeId}
    (hlinks : links = front ++ back) (hindex : index = s.index + 1 + 2 * front.length)
    (htree : Climbed rank first front e) (hstop : ∀ link ∈ back.head?, link.op.rank < rank) :
    Climbs tokens s rank first links follow (.ok e, { s with index := index, nextId := id })
  | clash {front back : List Link} {link : Link} {index : Nat} {id : NodeId}
    (hlinks : links = front ++ link :: back) (hindex : index = s.index + 1 + 2 * front.length)
    (hfree : ClashFree (front.map Link.op)) (hranks : ∀ link ∈ front, rank ≤ link.op.rank)
    (hclash : Clashes (front.map Link.op) link.op) :
    Climbs tokens s rank first links follow
      (.error (clashError tokens index link.op),
        { s with
          index := index
          nextId := id
          furthest := some (SyntaxError.furthest s.furthest (clashError tokens index link.op)) })
  | element {run : Except SyntaxError Expr × ParserState} (hindexes : Indexes first links follow)
    (hfree : ClashFree (links.map Link.op)) (hranks : ∀ link ∈ links, rank ≤ link.op.rank) :
    Climbs tokens s rank first links follow run

section Climbing

variable {tokens : Array Token} {s : ParserState} {rest : List Word} {levels rank : Nat}
  {first : Operand} {links front later : List Link} {link : Link} {left right : Expr}

lemma Climbed.opsOf_eq (h : Climbed rank first links left) :
    opsOf left = links.map Link.op := by
  rw [opsOf_of_inorder h.read, List.map_map]
  rfl

lemma Climbed.clashes_iff (h : Climbed rank first links left)
    (hafter : ComesAfter link.op left) :
    Clashes (links.map Link.op) link.op ↔
      (link.op.assoc = .none && chainedRank left = some link.op.rank) = true := by
  rw [← h.opsOf_eq, clashes_opsOf_iff h.grouped hafter]
  simp

/-- A chain that goes on with operators of the right operand of a link has no clash there. -/
lemma clashFree_append_cons (hleft : Climbed rank first front left)
    (hclash : ¬ Clashes (front.map Link.op) link.op) (hfree : ClashFree (later.map Link.op))
    (hranks : ∀ p ∈ later, link.op.rightRank ≤ p.op.rank) :
    ClashFree ((front ++ link :: later).map Link.op) := by
  rw [List.map_append, List.map_cons]
  refine hleft.free.link hclash hfree fun p hp => ?_
  obtain ⟨other, hother, rfl⟩ := List.mem_map.mp hp
  exact hranks other hother

lemma rank_le_append_cons (hleft : Climbed rank first front left) (hle : rank ≤ link.op.rank)
    (hranks : ∀ p ∈ later, link.op.rightRank ≤ p.op.rank) :
    ∀ p ∈ front ++ link :: later, rank ≤ p.op.rank := by
  intro p hp
  rcases List.mem_append.mp hp with hfront | hlater
  · exact hleft.ranks p hfront
  · rcases List.mem_cons.mp hlater with rfl | hlater
    · exact hle
    · exact Nat.le_trans hle (rank_of_rightRank_le (hranks p hlater)).1

/-- An operator that does not clash takes the tree before it and that of its right operand. -/
lemma Climbed.binary {site : Site} (hleft : Climbed rank first front left)
    (hafter : ComesAfter link.op left) (hclash : ¬ Clashes (front.map Link.op) link.op)
    (hle : rank ≤ link.op.rank)
    (hright : Climbed link.op.rightRank link.operand later right) :
    Climbed rank first (front ++ link :: later) (.binary site link.op left right) where
  read := by
    rw [inorder, hleft.read, hright.read, List.map_append, List.map_cons]
    exact (chainItems_append _ _ _ _ _).symm
  grouped := by
    refine grouped_binary hleft.grouped hafter (hleft.opsOf_eq ▸ hclash) hright.grouped ?_
    intro p hp
    rw [hright.opsOf_eq] at hp
    obtain ⟨other, hother, rfl⟩ := List.mem_map.mp hp
    exact hright.ranks other hother
  free := clashFree_append_cons hleft hclash hright.free hright.ranks
  ranks := rank_le_append_cons hleft hle hright.ranks

/-- All chains that have room at a number of levels are climbed. -/
def ClimbsAt (tokens : Array Token) (rest : List Word) (levels : Nat) : Prop :=
  ∀ (s : ParserState) (rank : Nat) (first : Operand) (links : List Link),
    Room levels rank links → ShortRuns links →
    ahead tokens s = first.word :: (links.flatMap Link.words ++ rest) →
    Climbs tokens s rank first links (firstKind rest none)
      (exprFrom (deeper levels) rank tokens s)

/-- Climbing stops where no operator comes next. -/
lemma climbUpTo_run_stop {d : Deeper} {chained : Option Nat}
    (h : (firstKind (ahead tokens s) none).bind BinaryOp.ofToken? = none) (count : Nat) :
    climbUpTo d rank count left chained tokens s = (.ok left, s) := by
  cases count with
  | zero => rfl
  | succ count =>
    rw [climbUpTo, bind_run_ok (peekKind_run tokens s), h]
    rfl

/-- From turn to turn of the loop the tree so far takes the next operator with its right operand,
until an operator of a lower rank, a clash or the end of the chain. -/
lemma climbs_climbUpTo (hends : endsChain (firstKind rest none))
    (hdeeper : ∀ m, levels = m + 1 → ClimbsAt tokens rest m) (count : Nat) :
    ∀ {front links : List Link} {left : Expr} {index : Nat} {id : NodeId},
      links.length ≤ count → index = s.index + 1 + 2 * front.length →
      ahead tokens { s with index := index, nextId := id } = links.flatMap Link.words ++ rest →
      Room levels rank links → ShortRuns links → Climbed rank first front left →
      (∀ link ∈ links.head?, ComesAfter link.op left) →
      Climbs tokens s rank first (front ++ links) (firstKind rest none)
        (climbUpTo (deeper levels) rank count left (chainedRank left) tokens
          { s with index := index, nextId := id }) := by
  induction count with
  | zero =>
    intro front links left index id hcount hindex _ _ _ htree _
    obtain rfl : links = [] := List.eq_nil_of_length_eq_zero (Nat.le_zero.mp hcount)
    exact .tree rfl hindex htree (fun _ h => absurd h (Option.not_mem_none _))
  | succ count ih =>
    intro front links left index id hcount hindex hahead hroom hshort htree hafter
    cases links with
    | nil =>
      rw [climbUpTo_run_stop (by rw [hahead]; exact hends.2)]
      exact .tree rfl hindex htree (fun _ h => absurd h (Option.not_mem_none _))
    | cons link links =>
      have hcomes := hafter link rfl
      have hnext : ahead tokens { s with index := index, nextId := id } =
          link.operator :: (link.operand.word :: (links.flatMap Link.words ++ rest)) := hahead
      rw [climbUpTo, bind_run_ok (peekKind_run _ _), hnext]
      simp only [firstKind, Option.bind_some, link.spelled]
      by_cases hlow : link.op.rank < rank
      · rw [if_pos hlow]
        refine .tree rfl hindex htree fun other hother => ?_
        rw [← Option.some.inj hother]
        exact hlow
      by_cases hclash : Clashes (front.map Link.op) link.op
      · rw [if_neg hlow, if_pos ((htree.clashes_iff hcomes).mp hclash)]
        exact .clash rfl hindex htree.free htree.ranks hclash
      rw [if_neg hlow, if_neg (fun h => hclash ((htree.clashes_iff hcomes).mpr h))]
      obtain ⟨token, hget, -, htail⟩ := ahead_eq_cons hnext
      rw [bind_run_ok (advance_run_next hget)]
      have hle : rank ≤ link.op.rank := Nat.le_of_not_lt hlow
      have hlinks : ShortRuns links := ShortRuns.of_append [link] hshort
      obtain ⟨m, rfl, hdeeproom⟩ := hroom.rightOperand hlinks hle
      -- The right operand is a chain of its own, one level deeper.
      have hright := hdeeper m rfl _ _ link.operand links hdeeproom hlinks htail
      have hlevel : (deeper (m + 1)).exprFrom = exprFrom (deeper m) := by rw [deeper_succ]; rfl
      rw [← hlevel] at hright
      generalize hrun : (deeper (m + 1)).exprFrom link.op.rightRank tokens
        { s with index := index + 1, nextId := id } = run at hright
      cases hright with
      | tree hsplit hindex' htree' hstop' =>
        rename_i later back right index' id'
        subst hsplit
        rw [bind_run_ok hrun, bind_run_ok (newSite_run _ _ _)]
        rw [← List.cons_append, ← List.append_assoc]
        refine ih ?_ ?_ (ahead_behind later htail hindex')
          (hroom.rest (link :: later) fun other hother => ?_)
          (hshort.of_append (link :: later)) (htree.binary hcomes hclash hle htree') hstop'
        · simp only [List.length_cons, List.length_append] at hcount
          omega
        · simp only [List.length_cons, List.length_append] at hindex' ⊢
          omega
        · exact Nat.lt_of_lt_of_le (hstop' other hother) (rightRank_le_seven _)
      | clash hsplit hindex' hfree' hranks' hclash' =>
        rename_i later back other index' id'
        subst hsplit
        rw [bind_run_error hrun, ← List.cons_append, ← List.append_assoc]
        refine .clash rfl ?_ (clashFree_append_cons htree hclash hfree' hranks')
          (rank_le_append_cons htree hle hranks') ?_
        · simp only [List.length_cons, List.length_append] at hindex' ⊢
          omega
        · rw [List.map_append, List.map_cons, List.append_cons]
          exact hclash'.append_left _
      | element hindexes' hfree' hranks' =>
        refine .element ?_ (clashFree_append_cons htree hclash hfree' hranks')
          (rank_le_append_cons htree hle hranks')
        rw [Indexes, lastOperand_append_cons]
        exact hindexes'

lemma climbed_operand {e : Expr} (h : inorder e = chainItems first.tree []) :
    Climbed rank first [] e :=
  ⟨h, grouped_of_isLeaf (isLeaf_of_inorder h), clashFree_nil,
    fun _ hmem => absurd hmem List.not_mem_nil⟩

/-- A chain is read like its right operands, by an operand and the loop. -/
lemma climbs_exprFrom (hends : endsChain (firstKind rest none))
    (hdeeper : ∀ m, levels = m + 1 → ClimbsAt tokens rest m) (hroom : Room levels rank links)
    (hshort : ShortRuns links)
    (hahead : ahead tokens s = first.word :: (links.flatMap Link.words ++ rest)) :
    Climbs tokens s rank first links (firstKind rest none)
      (exprFrom (deeper levels) rank tokens s) := by
  by_cases hindexes : links = [] ∧ Indexes first [] (firstKind rest none)
  · obtain ⟨rfl, hindexes⟩ := hindexes
    exact .element hindexes clashFree_nil (fun _ hmem => absurd hmem List.not_mem_nil)
  have hnext : (firstKind (links.flatMap Link.words ++ rest) none).any startsSimple = false ∧
      ¬ (first.word.1 = .genid ∧
        firstKind (links.flatMap Link.words ++ rest) none = some .lBracket) := by
    cases links with
    | nil => exact ⟨hends.1, fun h => hindexes ⟨rfl, h⟩⟩
    | cons link links =>
      have hoperator := endsOperand_of_ofToken? link.spelled
      exact ⟨hoperator.1, fun h => hoperator.2 h.2⟩
  obtain ⟨e, hrun, hread⟩ := unary_run_operand (deeper levels) hahead hnext.1 hnext.2
  have hleaf : IsLeaf e := isLeaf_of_inorder hread
  rw [exprFrom, bind_run_ok hrun, bind_run_ok (remaining_run _ _), ← chainedRank_of_isLeaf hleaf,
    ← List.nil_append links]
  have htail : ahead tokens { s with index := s.index + 1, nextId := s.nextId + 1 } =
      links.flatMap Link.words ++ rest := ahead_behind [] hahead rfl
  refine climbs_climbUpTo hends hdeeper _ ?_ rfl htail hroom hshort (climbed_operand hread)
    fun _ _ => comesAfter_of_isLeaf hleaf
  rw [← length_ahead, htail, List.length_append, length_flatMap_words]
  omega

/-- Climbing reads every chain for which there is room. -/
lemma climbsAt (hends : endsChain (firstKind rest none)) (levels : Nat) :
    ClimbsAt tokens rest levels := by
  induction levels with
  | zero =>
    intro s rank first links
    exact climbs_exprFrom hends fun m hm => absurd hm (Nat.succ_ne_zero m).symm
  | succ levels ih =>
    intro s rank first links
    refine climbs_exprFrom hends fun m hm => ?_
    rw [← Nat.succ.inj hm]
    exact ih

/-- The levels of a whole expression leave room for every chain with short runs of powers. -/
lemma climbs_wholeExpr (hends : endsChain (firstKind rest none)) (hshort : ShortRuns links)
    (hahead : ahead tokens s = first.word :: (links.flatMap Link.words ++ rest)) :
    Climbs tokens s anyRank first links (firstKind rest none) (wholeExpr outermost tokens s) := by
  have houtermost : outermost = levelAbove (deeper 255) := deeper_succ 255
  rw [houtermost]
  exact climbsAt hends 255 s anyRank first links (by rw [Room, if_pos (by decide)]; decide) hshort
    hahead

end Climbing

/-- A chain of operators is read to its end, into the only tree of its items that is grouped by
rank, if no operator clashes with an earlier one; a name before a bracket is the one operand that
does not end there. If some operator clashes, reading fails at the leftmost one that does. -/
theorem climbing_groups_chain (tokens : Array Token) (s : ParserState) (first : Operand)
    (links : List Link) (rest : List Word)
    (hahead : ahead tokens s = first.word :: (links.flatMap Link.words ++ rest))
    (hruns : ¬ List.replicate 240 .pow <:+: links.map Link.op)
    (hends : endsChain (firstKind rest none)) :
    (ClashFree (links.map Link.op) → ¬ Indexes first links (firstKind rest none) →
      ∃ e id, wholeExpr outermost tokens s =
          (.ok e, { s with index := s.index + 1 + 2 * links.length, nextId := id }) ∧
        inorder e = chainItems first.tree (links.map Link.item) ∧ Grouped e ∧
        ∀ e', inorder e' = chainItems first.tree (links.map Link.item) → Grouped e' →
          bareExpr e' = bareExpr e) ∧
    (¬ ClashFree (links.map Link.op) →
      ∃ front link back index id, links = front ++ link :: back ∧
        ClashFree (front.map Link.op) ∧ Clashes (front.map Link.op) link.op ∧
        index = s.index + 1 + 2 * front.length ∧
        wholeExpr outermost tokens s = (.error (clashError tokens index link.op),
          { s with
            index := index
            nextId := id
            furthest :=
              some (SyntaxError.furthest s.furthest (clashError tokens index link.op)) })) := by
  have hclimbs := climbs_wholeExpr hends hruns hahead
  generalize wholeExpr outermost tokens s = run at hclimbs
  cases hclimbs with
  | tree hlinks hindex htree hstop =>
    rename_i front back e index id
    have hback : back = [] := by
      cases back with
      | nil => rfl
      | cons link back => exact absurd (hstop link rfl) (Nat.not_lt_zero _)
    rw [hback, List.append_nil] at hlinks
    subst hlinks hindex
    refine ⟨fun _ _ => ⟨e, id, rfl, htree.read, htree.grouped, fun e' hread hgrouped => ?_⟩,
      fun hclash => absurd htree.free hclash⟩
    exact grouped_unique hgrouped htree.grouped (hread.trans htree.read.symm)
  | clash hlinks hindex hfree hranks hclash =>
    rename_i front back link index id
    subst hlinks
    refine ⟨fun hall => absurd hclash ?_,
      fun _ => ⟨front, link, back, index, id, rfl, hfree, hclash, hindex, rfl⟩⟩
    exact hall _ _ (back.map Link.op) (by rw [List.map_append, List.map_cons])
  | element hindexes hfree hranks =>
    exact ⟨fun _ hname => absurd hindexes hname, fun hclash => absurd hfree hclash⟩

/-- A name as an operand. -/
def nameOperand (name : String) : Operand := ⟨(.genid, name), _, rfl⟩

/-- An operator with a name after it. -/
def nameLink (kind : TokenKind) (op : BinaryOp) (h : BinaryOp.ofToken? kind = some op)
    (name : String) : Link :=
  ⟨(kind, op.symbol), op, h, nameOperand name⟩

/-- The tokens of a chain that starts with the name `a`. -/
def chainTokens (links : List Link) : Array Token :=
  (((nameOperand "a").word :: links.flatMap Link.words).map fun w =>
    Token.made w.1 w.2 1 1).toArray

/-- The chain is `a := b ** c ** d < e + f`. -/
def storingLinks : List Link :=
  [nameLink .assign .assign rfl "b", nameLink .fPow .pow rfl "c", nameLink .fPow .pow rfl "d",
    nameLink .lt .lt rfl "e", nameLink .plus .add rfl "f"]

/-- The chain is `a < b + c >= d < e`, whose second comparison clashes with the first one. -/
def comparingLinks : List Link :=
  [nameLink .lt .lt rfl "b", nameLink .plus .add rfl "c", nameLink .ge .ge rfl "d",
    nameLink .lt .lt rfl "e"]

theorem climbing_groups_storingLinks :
    (∃ e id, wholeExpr outermost (chainTokens storingLinks) .initial =
        (.ok e, { ParserState.initial with index := 11, nextId := id }) ∧
      inorder e = chainItems (.var default "a") (storingLinks.map Link.item) ∧ Grouped e) ∧
    ∃ front link back index id, comparingLinks = front ++ link :: back ∧
      Clashes (front.map Link.op) link.op ∧
      wholeExpr outermost (chainTokens comparingLinks) .initial =
        (.error (clashError (chainTokens comparingLinks) index link.op),
          { ParserState.initial with
            index := index
            nextId := id
            furthest := some (clashError (chainTokens comparingLinks) index link.op) }) := by
  have hshort {links : List Link} (h : links.length < 240) :
      ¬ List.replicate 240 BinaryOp.pow <:+: links.map Link.op := fun hrun => by
    have hlength := hrun.length_le
    rw [List.length_replicate, List.length_map] at hlength
    omega
  obtain ⟨hread, -⟩ := climbing_groups_chain (chainTokens storingLinks) .initial
    (nameOperand "a") storingLinks [] rfl (hshort (by decide)) ⟨rfl, rfl⟩
  obtain ⟨-, hclash⟩ := climbing_groups_chain (chainTokens comparingLinks) .initial
    (nameOperand "a") comparingLinks [] rfl (hshort (by decide)) ⟨rfl, rfl⟩
  obtain ⟨e, id, hrun, hinorder, hgrouped, -⟩ := hread (by decide) (fun h => nomatch h.2)
  obtain ⟨front, link, back, index, id', hlinks, -, hclashes, -, hrun'⟩ := hclash (by decide)
  exact ⟨⟨e, id, hrun, hinorder, hgrouped⟩, front, link, back, index, id', hlinks, hclashes,
    hrun'⟩

/-- The tokens of `x [ y ]`. -/
def indexedTokens : Array Token :=
  ([(.genid, "x"), (.lBracket, "["), (.genid, "y"), (.rBracket, "]")].map fun w =>
    Token.made w.1 w.2 1 1).toArray

/-- A bracket is neither an operator nor the start of an argument, but the name before it is no
operand of its own. -/
theorem bracket_extends_chain :
    ahead indexedTokens .initial = (nameOperand "x").word :: ([].flatMap Link.words ++
      [(.lBracket, "["), (.genid, "y"), (.rBracket, "]")]) ∧
    endsChain (some .lBracket) ∧ ClashFree [] ∧
    ¬ ∃ e s', wholeExpr outermost indexedTokens .initial = (.ok e, s') ∧ s'.index = 1 := by
  refine ⟨rfl, ⟨rfl, rfl⟩, clashFree_nil, ?_⟩
  rintro ⟨e, s', hrun, hindex⟩
  have hfour : (wholeExpr outermost indexedTokens .initial).2.index = 4 := by decide +kernel
  rw [hrun, hindex] at hfour
  exact absurd hfour (by decide)

end Llama.Proofs
