import Llama.Grammar.Operator
import Llama.Proofs.BareTree

/-!
# Trees of operators

A tree of binary operators is grouped by rank when every operator binds at most as tightly as
those below it, and strictly less tightly unless its associativity puts an operator of the same
rank on that side. A chain of operators has at most one such tree. It has none if two operators of
a rank that cannot be chained stand with only tighter operators between them: then the second one
clashes with what comes before it.
-/

namespace Llama.Proofs

variable {o p op : BinaryOp} {e : Expr}

/-- The operators of one rank are grouped alike. -/
lemma assoc_eq_of_rank_eq (h : o.rank = p.rank) : o.assoc = p.assoc := by
  have hrank : ∀ op : BinaryOp, op.assoc =
      if op.rank = 1 ∨ op.rank = 4 then .none else if op.rank = 7 then .right else .left := by
    intro op
    cases op <;> rfl
  rw [hrank, hrank, h]

lemma rank_le_seven (op : BinaryOp) : op.rank ≤ 7 := by
  cases op <;> decide

lemma eq_pow_iff : op = .pow ↔ op.rank = 7 := by
  cases op <;> decide

lemma assoc_eq_right_iff : op.assoc = .right ↔ op = .pow := by
  cases op <;> decide

lemma rightRank_le_seven (op : BinaryOp) : op.rightRank ≤ 7 := by
  cases op <;> decide

/-- An operator may stand in the right operand of another one of its rank only if the rank groups
to the right. -/
lemma rank_of_rightRank_le (h : o.rightRank ≤ p.rank) :
    o.rank ≤ p.rank ∧ (o.rank = p.rank → p.assoc = .right) := by
  unfold BinaryOp.rightRank at h
  split at h
  next hright => exact ⟨h, fun heq => assoc_eq_of_rank_eq heq ▸ hright⟩
  next => exact ⟨by omega, fun heq => by omega⟩

/-- The next operator after a right operand binds less tightly than all that may stand in it. -/
lemma rank_of_lt_rightRank (h : p.rank < o.rightRank) :
    p.rank ≤ o.rank ∧ (o.assoc = .right → p.rank < o.rank) := by
  unfold BinaryOp.rightRank at h
  split at h
  next hright => exact ⟨by omega, fun _ => h⟩
  next hother => exact ⟨by omega, fun hright => absurd hright hother⟩

/-- What stands in a chain of operators. -/
inductive Item where
  | operand (leaf : Expr)
  | operator (op : BinaryOp)

def Item.operator? : Item → Option BinaryOp
  | .operand _ => none
  | .operator op => some op

/-- The operands and operators of a tree from left to right. -/
@[simp]
def inorder : Expr → List Item
  | .binary _ op left right => inorder left ++ .operator op :: inorder right
  | e => [.operand (bareExpr e)]

/-- The operators of a tree from left to right. -/
def opsOf (e : Expr) : List BinaryOp := (inorder e).filterMap Item.operator?

@[simp] lemma opsOf_binary (site : Site) (op : BinaryOp) (left right : Expr) :
    opsOf (.binary site op left right) = opsOf left ++ op :: opsOf right := by
  simp [opsOf, Item.operator?]

/-- An operand and the operators after it, each with its own operand, as a list of items. -/
def chainItems (first : Expr) (links : List (BinaryOp × Expr)) : List Item :=
  .operand first :: links.flatMap fun link => [.operator link.1, .operand link.2]

lemma chainItems_append (first : Expr) (links : List (BinaryOp × Expr)) (op : BinaryOp)
    (next : Expr) (later : List (BinaryOp × Expr)) :
    chainItems first (links ++ (op, next) :: later) =
      chainItems first links ++ .operator op :: chainItems next later := by
  simp [chainItems]

lemma opsOf_of_inorder {first : Expr} {links : List (BinaryOp × Expr)}
    (h : inorder e = chainItems first links) : opsOf e = links.map Prod.fst := by
  rw [opsOf, h]
  clear h
  induction links with
  | nil => rfl
  | cons link links ih => exact congrArg (List.cons link.1) ih

/-! ### Trees that are grouped by rank -/

/-- Every operator binds at most as tightly as the operators below it; those of its own rank stand
to the left of it or to the right of it, as the rank is grouped. -/
@[simp]
def Grouped : Expr → Prop
  | .binary _ op left right =>
    Grouped left ∧ Grouped right ∧
    (∀ o ∈ opsOf left, if op.assoc = .left then op.rank ≤ o.rank else op.rank < o.rank) ∧
    ∀ o ∈ opsOf right, if op.assoc = .right then op.rank ≤ o.rank else op.rank < o.rank
  | _ => True

section

variable {site : Site} {root : BinaryOp} {left right : Expr}

lemma rank_le_of_ite {a : Assoc} (h : if o.assoc = a then o.rank ≤ p.rank else o.rank < p.rank) :
    o.rank ≤ p.rank := by
  split at h
  · exact h
  · exact Nat.le_of_lt h

/-- The root of a tree binds least tightly. -/
lemma Grouped.rank_le (h : Grouped (.binary site root left right)) :
    ∀ o ∈ opsOf (.binary site root left right), root.rank ≤ o.rank := by
  intro o ho
  rw [opsOf_binary] at ho
  rcases List.mem_append.mp ho with hleft | hright
  · exact rank_le_of_ite (h.2.2.1 o hleft)
  · rcases List.mem_cons.mp hright with rfl | hright
    · exact Nat.le_refl _
    · exact rank_le_of_ite (h.2.2.2 o hright)

lemma rank_lt_of_ite {a : Assoc} (ha : o.assoc ≠ a)
    (h : if o.assoc = a then o.rank ≤ p.rank else o.rank < p.rank) : o.rank < p.rank := by
  rw [if_neg ha] at h
  exact h

/-- Two grouped trees with different roots do not read alike: each root would stand below the
other one, on sides that their common rank does not both allow. -/
lemma root_not_inside (ho : if o.assoc = .right then o.rank ≤ p.rank else o.rank < p.rank)
    (hp : if p.assoc = .left then p.rank ≤ o.rank else p.rank < o.rank) : False := by
  have hrank : o.rank = p.rank := Nat.le_antisymm (rank_le_of_ite ho) (rank_le_of_ite hp)
  have hassoc := assoc_eq_of_rank_eq hrank
  by_cases hright : o.assoc = .right
  · have hlt := rank_lt_of_ite (by rw [← hassoc, hright]; decide) hp
    omega
  · have hlt := rank_lt_of_ite hright ho
    omega

lemma mem_opsOf (h : .operator op ∈ inorder e) : op ∈ opsOf e :=
  List.mem_filterMap.mpr ⟨_, h, rfl⟩

lemma length_inorder_pos (e : Expr) : 0 < (inorder e).length := by
  cases e with
  | binary site op left right =>
    rw [inorder, List.length_append, List.length_cons]
    exact Nat.succ_pos _
  | _ => exact Nat.one_pos

end

/-- An expression that is no binary operator is read as itself. -/
def IsLeaf (e : Expr) : Prop := inorder e = [.operand (bareExpr e)]

lemma isLeaf_or_binary (e : Expr) :
    IsLeaf e ∨ ∃ site op left right, e = .binary site op left right := by
  cases e with
  | binary site op left right => exact .inr ⟨site, op, left, right, rfl⟩
  | _ => exact .inl rfl

lemma length_inorder_binary (site : Site) (op : BinaryOp) (left right : Expr) :
    1 < (inorder (.binary site op left right)).length := by
  have hleft := length_inorder_pos left
  have hright := length_inorder_pos right
  simp only [inorder, List.length_append, List.length_cons]
  omega

lemma not_isLeaf_binary (site : Site) (op : BinaryOp) (left right : Expr) :
    ¬ IsLeaf (.binary site op left right) := by
  intro hleaf
  have hlong := length_inorder_binary site op left right
  rw [hleaf] at hlong
  exact absurd hlong (Nat.lt_irrefl 1)

lemma isLeaf_of_inorder {leaf : Expr} (h : inorder e = [.operand leaf]) : IsLeaf e := by
  rcases isLeaf_or_binary e with hleaf | ⟨site, op, left, right, rfl⟩
  · exact hleaf
  · have hlong := length_inorder_binary site op left right
    rw [h] at hlong
    exact absurd hlong (Nat.lt_irrefl 1)

lemma grouped_of_isLeaf (h : IsLeaf e) : Grouped e := by
  cases e with
  | binary site op left right => exact absurd h (not_isLeaf_binary _ _ _ _)
  | _ => trivial

/-- Two marked places of one list are the same, or one is before the other. -/
lemma eq_or_before_of_append_cons {α : Type} {before after before' after' : List α} {x y : α}
    (h : before ++ x :: after = before' ++ y :: after') :
    (before = before' ∧ x = y ∧ after = after') ∨
      (∃ between, before' = before ++ x :: between ∧ after = between ++ y :: after') ∨
      ∃ between, before = before' ++ y :: between ∧ after' = between ++ x :: after := by
  rcases List.append_eq_append_iff.mp h with ⟨more, hmore, hrest⟩ | ⟨more, hmore, hrest⟩ <;>
    cases more with
    | nil =>
      rw [List.append_nil] at hmore
      rw [List.nil_append, List.cons.injEq] at hrest
      grind
    | cons z more =>
      rw [List.cons_append, List.cons.injEq] at hrest
      grind

/-- A chain of operators has at most one tree that is grouped by rank. -/
theorem grouped_unique {e' : Expr} (h : Grouped e) (h' : Grouped e')
    (hread : inorder e = inorder e') : bareExpr e = bareExpr e' := by
  -- The induction is on the length of the chain; the roots stand at the same place in it.
  induction hn : (inorder e).length using Nat.strongRecOn generalizing e e' with
  | ind n ih =>
    rcases isLeaf_or_binary e with hleaf | ⟨site, op, left, right, rfl⟩ <;>
      rcases isLeaf_or_binary e' with hleaf' | ⟨site', op', left', right', rfl⟩
    · rw [hleaf, hleaf'] at hread
      simpa using hread
    · exact absurd (isLeaf_of_inorder (hread.symm.trans hleaf)) (not_isLeaf_binary _ _ _ _)
    · exact absurd (isLeaf_of_inorder (hread.trans hleaf')) (not_isLeaf_binary _ _ _ _)
    · have hleft := length_inorder_pos left
      have hright := length_inorder_pos right
      simp only [inorder, List.length_append, List.length_cons] at hn
      simp only [inorder] at hread
      obtain ⟨hgl, hgr, hol, hor⟩ := h
      obtain ⟨hgl', hgr', hol', hor'⟩ := h'
      rcases eq_or_before_of_append_cons hread with
        ⟨hsame, hop, hrest⟩ | ⟨between, hsame, hrest⟩ | ⟨between, hsame, hrest⟩
      · rw [bareExpr, bareExpr, Item.operator.inj hop, ih _ (by omega) hgl hgl' hsame rfl,
          ih _ (by omega) hgr hgr' hrest rfl]
      · refine (root_not_inside (hor op' ?_) (hol' op ?_)).elim
        · exact mem_opsOf (by rw [hrest]; simp)
        · exact mem_opsOf (by rw [hsame]; simp)
      · refine (root_not_inside (hor' op ?_) (hol op' ?_)).elim
        · exact mem_opsOf (by rw [hrest]; simp)
        · exact mem_opsOf (by rw [hsame]; simp)

/-- The operator cannot be chained and shares its rank with an earlier one, with only tighter
operators between them. -/
def Clashes (front : List BinaryOp) (op : BinaryOp) : Prop :=
  op.assoc = .none ∧ ∃ before o between, front = before ++ o :: between ∧ o.rank = op.rank ∧
    ∀ m ∈ between, op.rank < m.rank

/-- No operator clashes with an earlier one. -/
def ClashFree (ops : List BinaryOp) : Prop :=
  ∀ front op back, ops = front ++ op :: back → ¬ Clashes front op

section

variable {front later : List BinaryOp} {o p : BinaryOp}

lemma clashFree_nil : ClashFree [] := by
  intro front op back h
  simp at h

lemma Clashes.append_left (h : Clashes later p) (front : List BinaryOp) :
    Clashes (front ++ later) p := by
  obtain ⟨hassoc, before, o, between, rfl, hrank, hbetween⟩ := h
  exact ⟨hassoc, front ++ before, o, between, by simp, hrank, hbetween⟩

/-- An operator that binds no tighter and does not clash itself hides what is before it. -/
lemma Clashes.of_append_cons (h : Clashes (front ++ o :: later) p) (hle : o.rank ≤ p.rank)
    (hchained : o.rank = p.rank → p.assoc ≠ .none) : Clashes later p := by
  obtain ⟨hassoc, before, q, between, heq, hrank, hbetween⟩ := h
  rcases eq_or_before_of_append_cons heq with
    ⟨-, rfl, -⟩ | ⟨more, -, hrest⟩ | ⟨more, -, hrest⟩
  · exact absurd hassoc (hchained hrank)
  · exact ⟨hassoc, more, q, between, hrest, hrank, hbetween⟩
  · have hlt := hbetween o (by rw [hrest]; simp)
    omega

/-- In the right operand of an operator nothing clashes with what is before the operand. -/
lemma Clashes.of_rightOperand (h : Clashes (front ++ o :: later) p)
    (hp : o.rightRank ≤ p.rank) : Clashes later p := by
  obtain ⟨hle, hright⟩ := rank_of_rightRank_le hp
  refine h.of_append_cons hle fun heq => ?_
  rw [hright heq]
  decide

/-- A chain stays free of clashes when an operator that does not clash is added together with its
right operand. -/
lemma ClashFree.link (hfront : ClashFree front) (ho : ¬ Clashes front o) (hlater : ClashFree later)
    (hright : ∀ p ∈ later, o.rightRank ≤ p.rank) : ClashFree (front ++ o :: later) := by
  intro front' p back heq hclash
  rcases eq_or_before_of_append_cons heq with
    ⟨rfl, rfl, -⟩ | ⟨more, rfl, rfl⟩ | ⟨more, rfl, -⟩
  · exact ho hclash
  · exact hlater more p back rfl (hclash.of_rightOperand (hright p (by simp)))
  · exact hfront front' p more rfl hclash

end

/-- The last operator that does not bind tighter decides. -/
lemma clashes_iff {front : List BinaryOp} :
    Clashes front op ↔ op.assoc = .none ∧
      (front.reverse.find? fun o => o.rank ≤ op.rank).any (fun o => o.rank = op.rank) = true := by
  refine and_congr_right fun _ => ?_
  rw [Option.any_eq_true]
  constructor
  · rintro ⟨before, o, between, rfl, hrank, hbetween⟩
    refine ⟨o, List.find?_eq_some_iff_append.mpr ⟨by simp [hrank], between.reverse,
      before.reverse, by simp, fun m hm => ?_⟩, by simpa using hrank⟩
    simpa using hbetween m (List.mem_reverse.mp hm)
  · rintro ⟨o, hfind, hrank⟩
    obtain ⟨-, between, before, hfront, hbetween⟩ := List.find?_eq_some_iff_append.mp hfind
    refine ⟨before.reverse, o, between.reverse, ?_, by simpa using hrank, fun m hm => ?_⟩
    · rw [← List.reverse_reverse front, hfront]
      simp
    · simpa using hbetween m (List.mem_reverse.mp hm)

instance (front : List BinaryOp) (op : BinaryOp) : Decidable (Clashes front op) :=
  decidable_of_iff _ clashes_iff.symm

lemma clashFree_iff {ops : List BinaryOp} :
    ClashFree ops ↔ ∀ i : Fin ops.length, ¬ Clashes (ops.take i) (ops.get i) := by
  constructor
  · intro h i
    refine h _ _ (ops.drop (i + 1)) ?_
    rw [List.get_eq_getElem, ← List.drop_eq_getElem_cons, List.take_append_drop]
  · rintro h front op back rfl
    have hat := h ⟨front.length, by simp⟩
    simpa using hat

instance (ops : List BinaryOp) : Decidable (ClashFree ops) :=
  decidable_of_iff _ clashFree_iff.symm

/-- The rank of the root of a tree, if it cannot be chained. -/
def chainedRank : Expr → Option Nat
  | .binary _ root _ _ => if root.assoc = .none then some root.rank else none
  | _ => none

/-- The operator may come after the tree: it may not stand in the right operand of the root. -/
def ComesAfter (op : BinaryOp) : Expr → Prop
  | .binary _ root _ _ => op.rank < root.rightRank
  | _ => True

section

variable {site : Site} {op : BinaryOp} {e left right : Expr}

lemma opsOf_of_isLeaf (h : IsLeaf e) : opsOf e = [] := by
  rw [opsOf, h]
  rfl

lemma chainedRank_of_isLeaf (h : IsLeaf e) : chainedRank e = none := by
  cases e with
  | binary site op left right => exact absurd h (not_isLeaf_binary _ _ _ _)
  | _ => rfl

lemma comesAfter_of_isLeaf (h : IsLeaf e) : ComesAfter op e := by
  cases e with
  | binary site op left right => exact absurd h (not_isLeaf_binary _ _ _ _)
  | _ => trivial

/-- An operator clashes with a grouped tree that it comes after just when it has the rank of the
root and cannot be chained. -/
lemma clashes_opsOf_iff (h : Grouped e) (hafter : ComesAfter op e) :
    Clashes (opsOf e) op ↔ op.assoc = .none ∧ chainedRank e = some op.rank := by
  rcases isLeaf_or_binary e with hleaf | ⟨site, root, left, right, rfl⟩
  · rw [opsOf_of_isLeaf hleaf, chainedRank_of_isLeaf hleaf]
    refine iff_of_false ?_ nofun
    rintro ⟨-, before, o, between, heq, -⟩
    simp at heq
  · constructor
    · rintro ⟨hassoc, before, o, between, heq, hrank, -⟩
      refine ⟨hassoc, ?_⟩
      have hroot := h.rank_le o (by rw [heq]; simp)
      have hle := (rank_of_lt_rightRank hafter).1
      have hsame : root.rank = op.rank := by omega
      rw [chainedRank, assoc_eq_of_rank_eq hsame, if_pos hassoc, hsame]
    · rintro ⟨hassoc, hchained⟩
      rw [chainedRank] at hchained
      split at hchained
      next hnone =>
        have hsame : root.rank = op.rank := Option.some.inj hchained
        refine ⟨hassoc, opsOf left, root, opsOf right, opsOf_binary _ _ _ _, hsame,
          fun m hm => ?_⟩
        have hlt := h.2.2.2 m hm
        rw [hnone, if_neg (by decide)] at hlt
        omega
      next => cases hchained

/-- An operator that comes after a grouped tree without a clash makes a grouped tree with it and
with its own right operand. -/
lemma grouped_binary (hleft : Grouped left) (hafter : ComesAfter op left)
    (hclash : ¬ Clashes (opsOf left) op) (hright : Grouped right)
    (hranks : ∀ p ∈ opsOf right, op.rightRank ≤ p.rank) :
    Grouped (.binary site op left right) := by
  refine ⟨hleft, hright, fun o ho => ?_, fun o ho => ?_⟩
  · rcases isLeaf_or_binary left with hleaf | ⟨site', root, l, r, rfl⟩
    · rw [opsOf_of_isLeaf hleaf] at ho
      exact absurd ho List.not_mem_nil
    · have hroot := hleft.rank_le o ho
      obtain ⟨hle, hpow⟩ := rank_of_lt_rightRank hafter
      by_cases hassoc : op.assoc = .left
      · rw [if_pos hassoc]
        omega
      · rw [if_neg hassoc]
        -- A root of the same rank would have taken the operator, or clash with it.
        by_contra hlt
        have hsame : root.rank = op.rank := by omega
        have hassocs := assoc_eq_of_rank_eq hsame
        cases hop : op.assoc with
        | left => exact hassoc hop
        | right =>
          have hless := hpow (hassocs.trans hop)
          omega
        | none =>
          refine hclash ((clashes_opsOf_iff hleft hafter).mpr ⟨hop, ?_⟩)
          rw [chainedRank, hassocs, hop, if_pos rfl, hsame]
  · have hrank := hranks o ho
    unfold BinaryOp.rightRank at hrank
    split
    next hassoc =>
      rw [if_pos hassoc] at hrank
      exact hrank
    next hassoc =>
      rw [if_neg hassoc] at hrank
      omega

end

end Llama.Proofs
