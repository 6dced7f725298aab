import Llama.Proofs.PartReading
import Mathlib.Data.List.Basic

/-!
# Conditionals without an end

A conditional has no closing word, so that it can be ambiguous to which `if` an `else` belongs. The
parser reads the one tree in which it belongs to the nearest `if` before it that has none yet, and
a branch ends before a semicolon.
-/

namespace Llama.Proofs

open Llama.Parser Llama.Grammar

/-- A name, or a conditional with a name as its condition. -/
inductive Branching where
  | leaf (name : String)
  | ifThen (condition : String) (positive : Branching)
  | ifElse (condition : String) (positive negative : Branching)

/-- The words can be read as the given tree. They can have several. -/
inductive Branches : List Word → Branching → Prop
  | leaf {name : String} : Branches [(.genid, name)] (.leaf name)
  | ifThen {condition ifText thenText : String} {ws : List Word} {t : Branching}
      (h : Branches ws t) :
      Branches ((.kwIf, ifText) :: (.genid, condition) :: (.kwThen, thenText) :: ws)
        (.ifThen condition t)
  | ifElse {condition ifText thenText elseText : String} {ws ws' : List Word} {t t' : Branching}
      (h : Branches ws t) (h' : Branches ws' t') :
      Branches ((.kwIf, ifText) :: (.genid, condition) :: (.kwThen, thenText) ::
        (ws ++ (.kwElse, elseText) :: ws')) (.ifElse condition t t')

namespace Branching

/-- The expression that the tree stands for. -/
def expr : Branching → Expr
  | leaf name => .var default name
  | ifThen condition t => .ifThen default (.var default condition) t.expr
  | ifElse condition t t' => .ifElse default (.var default condition) t.expr t'.expr

/-- How many expressions are nested in one another. -/
def nesting : Branching → Nat
  | leaf _ => 1
  | ifThen _ t => t.nesting + 1
  | ifElse _ t t' => max t.nesting t'.nesting + 1

/-- The number of words. -/
def length : Branching → Nat
  | leaf _ => 1
  | ifThen _ t => 3 + t.length
  | ifElse _ t t' => 3 + t.length + 1 + t'.length

/-- The position of each `else`, after that of the `if` to which it belongs in the tree. The tree
starts at a given position. -/
def pairs : (start : Nat) → Branching → List (Nat × Nat)
  | _, leaf _ => []
  | start, ifThen _ t => t.pairs (start + 3)
  | start, ifElse _ t t' =>
    t.pairs (start + 3) ++
      (start, start + 3 + t.length) :: t'.pairs (start + 3 + t.length + 1)

end Branching

/-- The position of each `else`, after that of the nearest `if` before it that has none yet. The
words start at a given position, and `waiting` are the positions of the `if`s before them that have
none yet, the nearest first. -/
def nearestIfs : (start : Nat) → (waiting : List Nat) → List Word → List (Nat × Nat)
  | _, _, [] => []
  | start, waiting, w :: ws =>
    if w.1 = .kwIf then nearestIfs (start + 1) (start :: waiting) ws
    else if w.1 = .kwElse then
      match waiting with
      | [] => nearestIfs (start + 1) [] ws
      | nearest :: waiting => (nearest, start) :: nearestIfs (start + 1) waiting ws
    else nearestIfs (start + 1) waiting ws

/-! ### Trees in which every `else` takes the nearest `if` -/

namespace Branching

/-- Whether an `else` after the tree could belong to an `if` in it. -/
def isOpen : Branching → Bool
  | leaf _ => false
  | ifThen _ _ => true
  | ifElse _ _ t' => t'.isOpen

/-- No `else` could belong to an `if` in the branch before it. -/
def Proper : Branching → Prop
  | leaf _ => True
  | ifThen _ t => t.Proper
  | ifElse _ t t' => t.Proper ∧ t'.Proper ∧ t.isOpen = false

/-- The positions of the `if`s that have no `else` and could take one after the tree, the nearest
first. -/
def openIfs : (start : Nat) → Branching → List Nat
  | _, leaf _ => []
  | start, ifThen _ t => t.openIfs (start + 3) ++ [start]
  | start, ifElse _ t t' => t'.openIfs (start + 3 + t.length + 1)

lemma openIfs_eq_nil {t : Branching} (h : t.isOpen = false) (start : Nat) :
    t.openIfs start = [] := by
  induction t generalizing start with
  | leaf _ => rfl
  | ifThen _ _ _ => cases h
  | ifElse _ t t' _ ih => exact ih h _

lemma one_le_nesting (t : Branching) : 1 ≤ t.nesting := by
  cases t with
  | leaf _ => exact Nat.le_refl 1
  | ifThen _ t => exact Nat.le_add_left 1 _
  | ifElse _ t t' => exact Nat.le_add_left 1 _

/-- The `if`s of a tree lie within it. -/
lemma notMem_pairs {start i : Nat} (hi : i < start) (t : Branching) (j : Nat) :
    (i, j) ∉ t.pairs start := by
  induction t generalizing start with
  | leaf _ => exact List.not_mem_nil
  | ifThen _ t ih => exact ih (by omega)
  | ifElse _ t t' ih ih' =>
    intro hmem
    rcases List.mem_append.mp hmem with hmem | hmem
    · exact ih (by omega) hmem
    · rcases List.mem_cons.mp hmem with heq | hmem
      · cases heq
        exact absurd hi (Nat.lt_irrefl _)
      · exact ih' (by omega) hmem

end Branching

section Derivations

variable {ws ws' : List Word} {t t' : Branching}

lemma Branches.length_eq (h : Branches ws t) : ws.length = t.length := by
  induction h with
  | leaf => rfl
  | ifThen _ ih =>
    simp only [List.length_cons, Branching.length, ih]
    omega
  | ifElse _ _ ih ih' =>
    simp only [List.length_cons, List.length_append, Branching.length, ih, ih']
    omega

/-- An `else` with its branch after a tree that is open goes to the last `if` that can take it. -/
lemma exists_proper_append (h : Branches ws t) (hp : t.Proper) (hopen : t.isOpen = true)
    (h' : Branches ws' t') (hp' : t'.Proper) (elseText : String) :
    ∃ t'', Branches (ws ++ (.kwElse, elseText) :: ws') t'' ∧ t''.Proper := by
  induction h with
  | leaf => cases hopen
  | @ifThen condition _ _ ws t h ih =>
    cases hinner : t.isOpen with
    | true =>
      obtain ⟨t'', ht'', hp''⟩ := ih hp hinner
      exact ⟨_, .ifThen ht'', hp''⟩
    | false => exact ⟨_, .ifElse h h', hp, hp', hinner⟩
  | @ifElse condition _ _ innerText ws₁ ws₂ t₁ t₂ h₁ h₂ ih₁ ih₂ =>
    obtain ⟨t'', ht'', hp''⟩ := ih₂ hp.2.1 hopen
    refine ⟨.ifElse condition t₁ t'', ?_, hp.1, hp'', hp.2.2⟩
    simp only [List.cons_append, List.append_assoc]
    exact .ifElse h₁ ht''

/-- Whatever can be read as a tree can be read as a proper one. -/
lemma exists_proper (h : Branches ws t) : ∃ t', Branches ws t' ∧ t'.Proper := by
  induction h with
  | leaf => exact ⟨_, .leaf, trivial⟩
  | ifThen _ ih =>
    obtain ⟨t', ht', hp⟩ := ih
    exact ⟨_, .ifThen ht', hp⟩
  | @ifElse condition _ _ elseText ws ws' _ _ _ _ ih ih' =>
    obtain ⟨t, ht, hp⟩ := ih
    obtain ⟨t', ht', hp'⟩ := ih'
    cases hopen : t.isOpen with
    | true =>
      obtain ⟨t'', ht'', hp''⟩ := exists_proper_append ht hp hopen ht' hp' elseText
      exact ⟨_, .ifThen ht'', hp''⟩
    | false => exact ⟨_, .ifElse ht ht', hp, hp', hopen⟩

/-- Going through a proper tree, each `else` finds the `if` that it belongs to. -/
lemma nearestIfs_append (h : Branches ws t) (hp : t.Proper) (start : Nat) (waiting : List Nat)
    (rest : List Word) :
    nearestIfs start waiting (ws ++ rest) =
      t.pairs start ++ nearestIfs (start + ws.length) (t.openIfs start ++ waiting) rest := by
  induction h generalizing start waiting rest with
  | leaf => rfl
  | @ifThen _ _ _ ws t h ih =>
    have hread : nearestIfs (start + 3) (start :: waiting) (ws ++ rest) = _ :=
      ih hp (start + 3) (start :: waiting) rest
    have hend : start + 3 + ws.length = start + (ws.length + 3) := by omega
    rw [List.append_cons, hend] at hread
    exact hread
  | @ifElse _ _ _ elseText ws ws' t t' h h' ih ih' =>
    obtain ⟨hp, hp', hclosed⟩ := hp
    have hread : nearestIfs (start + 3) (start :: waiting)
        (ws ++ (.kwElse, elseText) :: (ws' ++ rest)) = _ :=
      ih hp (start + 3) (start :: waiting) ((.kwElse, elseText) :: (ws' ++ rest))
    rw [Branching.openIfs_eq_nil hclosed, h.length_eq] at hread
    have helse : nearestIfs (start + 3 + t.length) ([] ++ start :: waiting)
        ((.kwElse, elseText) :: (ws' ++ rest)) =
          (start, start + 3 + t.length) ::
            nearestIfs (start + 3 + t.length + 1) waiting (ws' ++ rest) := rfl
    rw [helse, ih' hp'] at hread
    have hend : start + 3 + t.length + 1 + ws'.length =
        start + ((ws ++ (.kwElse, elseText) :: ws').length + 3) := by
      rw [List.length_append, List.length_cons, h.length_eq]
      omega
    rw [hend] at hread
    simp only [List.cons_append, List.append_assoc, Branching.pairs]
    exact hread

/-- The words and the pairs determine the tree. -/
lemma eq_of_pairs_eq (h : Branches ws t) (h' : Branches ws t') {start : Nat}
    (hpairs : t.pairs start = t'.pairs start) : t = t' := by
  have hdiffer (t t₁ t₂ : Branching) (start : Nat) (condition : String)
      (heq : t.pairs (start + 3) = (Branching.ifElse condition t₁ t₂).pairs start) : False := by
    have hstart : start < start + 3 := by omega
    refine Branching.notMem_pairs hstart t (start + 3 + t₁.length) ?_
    rw [heq]
    exact List.mem_append_right _ List.mem_cons_self
  induction h generalizing t' start with
  | leaf =>
    cases h' with
    | leaf => rfl
  | ifThen h ih =>
    cases h' with
    | ifThen h' => rw [ih h' hpairs]
    | ifElse h' h'' => exact (hdiffer _ _ _ _ _ hpairs).elim
  | @ifElse _ _ _ _ ws₁ ws₂ t₁ t₂ h₁ h₂ ih₁ ih₂ =>
    generalize hws : ws₁ ++ _ :: ws₂ = ws at h'
    cases h' with
    | ifThen h' => exact (hdiffer _ _ _ _ _ hpairs.symm).elim
    | @ifElse _ _ _ _ ws₃ ws₄ t₃ t₄ h₃ h₄ =>
      -- The pair of the outer `if` is found in both lists and cuts them, and so the words.
      obtain ⟨hleft, hpair, hright⟩ := (List.append_cons_inj_of_notMem
        (Branching.notMem_pairs (by omega) t₁ _)
        (Branching.notMem_pairs (by omega) t₂ _)).mp hpairs
      have hlength : t₁.length = t₃.length := Nat.add_left_cancel (congrArg Prod.snd hpair)
      obtain ⟨rfl, htail⟩ :=
        List.append_inj hws (by rw [h₁.length_eq, h₃.length_eq, hlength])
      obtain ⟨-, rfl⟩ := List.cons.inj htail
      rw [← hlength] at hright
      rw [ih₁ h₃ hleft, ih₂ h₄ hright]

end Derivations

/-- What follows a branch extends neither its last name nor, by an operator, the branch, and is no
`else` that an `if` in the branch would take. -/
def endsBranch (t : Branching) (k : Option TokenKind) : Prop :=
  endsOperand k ∧ (∀ op, k.bind BinaryOp.ofToken? = some op → op.rank < branchRank) ∧
    (t.isOpen = true → k ≠ some .kwElse)

section Reading

variable {d : Deeper} {ws : List Word} {t : Branching} {follow : Option TokenKind → Prop}
  {post : Expr → Prop}

lemma reads_unary_name (n : Nat) (name : String) :
    Reads (unary (deeper n)) [(.genid, name)] endsOperand
      (fun e => bareExpr e = .var default name) := by
  have hread := @reads_unary ⟨fun _ => "", fun _ => ""⟩ (.var default name) n nofun trivial
    (Nat.zero_le n)
  rw [bareExpr] at hread
  exact hread

/-- Climbing stops before an operator of a lower rank. -/
lemma reads_climbUpTo_below {rank n : Nat} {left : Expr} {chained : Option Nat}
    (hfollow : ∀ k, follow k → ∀ op, k.bind BinaryOp.ofToken? = some op → op.rank < rank)
    (hleft : post left) : Reads (climbUpTo d rank n left chained) [] follow post := by
  cases n with
  | zero => exact reads_pure hleft
  | succ n =>
    rw [climbUpTo]
    refine reads_peekKind_follow_bind fun k hk => ?_
    rw [firstKind]
    cases hop : k.bind BinaryOp.ofToken? with
    | none => exact reads_pure hleft
    | some op =>
      simp only [if_pos (hfollow k hk op hop)]
      exact reads_pure hleft

lemma reads_exprFrom_branch (h : Reads (unary d) ws (endsBranch t) post) :
    Reads (exprFrom d branchRank) ws (endsBranch t) post := by
  unfold exprFrom
  refine reads_bind_last h fun left hleft => reads_read_bind fun n => ?_
  exact reads_climbUpTo_below (fun k hk => hk.2.1) hleft

lemma reads_condition (n : Nat) (name : String) :
    Reads (exprFrom (deeper n) anyRank) [(.genid, name)] (fun k => k = some .kwThen)
      (fun e => bareExpr e = .var default name) := by
  refine reads_exprFrom_of_unary ?_ ((reads_unary_name n name).mono ?_ fun _ h => h)
  · rintro _ rfl
    rfl
  · rintro _ rfl
    decide

/-- An `else` ends a branch in which no `if` would take it. -/
lemma endsBranch_else (h : t.isOpen = false) : endsBranch t (some .kwElse) := by
  refine ⟨by decide, nofun, fun hopen => ?_⟩
  rw [h] at hopen
  cases hopen

/-- Up to its first branch a conditional is read in one way only. -/
lemma reads_unary_if {m : Nat} {ifText condition thenText : String}
    (h : ∀ (start : Token) (e : Expr), bareExpr e = .var default condition →
      Reads (do
        let positive ← exprFrom (deeper m) branchRank
        if ← isAt .kwElse then
          let _ ← expect .kwElse
          let negative ← exprFrom (deeper m) branchRank
          return .ifElse (← newSiteFrom start.span) e positive negative
        else return .ifThen (← newSiteFrom start.span) e positive) ws follow post) :
    Reads (unary (deeper (m + 1)))
      ((.kwIf, ifText) :: (.genid, condition) :: (.kwThen, thenText) :: ws) follow post := by
  rw [deeper_succ]
  refine reads_unary_of_primary nofun rfl ?_
  unfold primary
  refine reads_peekKind_bind ?_
  unfold conditional wholeExpr
  refine reads_expect_bind fun start _ => ?_
  show Reads _ ([(.genid, condition)] ++ (.kwThen, thenText) :: ws) _ _
  refine reads_bind (reads_condition m condition) (fun e he => ?_) (fun _ _ => rfl)
  exact reads_expect_bind fun _ _ => h start e he

/-- A proper tree is read before whatever ends it. -/
lemma reads_unary_branches (h : Branches ws t) (hp : t.Proper) :
    ∀ n, t.nesting ≤ n + 1 →
      Reads (unary (deeper n)) ws (endsBranch t) (fun e => bareExpr e = t.expr) := by
  induction h with
  | leaf => exact fun n _ => (reads_unary_name n _).mono (fun k hk => hk.1) fun _ h => h
  | @ifThen condition ifText thenText ws t h ih =>
    intro n hn
    rw [Branching.nesting] at hn
    have hone := t.one_le_nesting
    obtain ⟨m, rfl⟩ : ∃ m, n = m + 1 := ⟨n - 1, by omega⟩
    have hbranch := reads_exprFrom_branch (ih hp m (by omega))
    refine reads_unary_if fun start e₁ h₁ => ?_
    refine reads_bind_last (hbranch.mono ?_ fun _ h => h) (fun e₂ h₂ => ?_)
    · exact fun k hk => ⟨hk.1, hk.2.1, fun _ => hk.2.2 rfl⟩
    · refine reads_isAt_other_bind (fun k hk => hk.2.2 rfl) ?_
      refine reads_newSiteFrom_bind fun _ => reads_pure ?_
      rw [bareExpr, Branching.expr, h₁, h₂]
  | @ifElse condition ifText thenText elseText ws ws' t t' h h' ih ih' =>
    intro n hn
    rw [Branching.nesting] at hn
    have hone := t.one_le_nesting
    obtain ⟨m, rfl⟩ : ∃ m, n = m + 1 := ⟨n - 1, by omega⟩
    obtain ⟨hp, hp', hclosed⟩ := hp
    have hpositive := reads_exprFrom_branch (ih hp m (by omega))
    have hnegative : Reads _ ws' (endsBranch (.ifElse condition t t')) _ :=
      reads_exprFrom_branch (ih' hp' m (by omega))
    refine reads_unary_if fun start e₁ h₁ => ?_
    refine reads_bind hpositive (fun e₂ h₂ => ?_) (fun _ _ => endsBranch_else hclosed)
    refine reads_isAt_bind (reads_expect_bind fun _ _ => ?_)
    refine reads_bind_last hnegative (fun e₃ h₃ => ?_)
    refine reads_newSiteFrom_bind fun _ => reads_pure ?_
    rw [bareExpr, Branching.expr, h₁, h₂, h₃]

lemma reads_exprFrom_branches (h : Branches ws t) (hp : t.Proper) {n : Nat}
    (hn : t.nesting ≤ n + 1) :
    Reads (exprFrom (deeper n) anyRank) ws (fun k => endsExpr k ∧ k ≠ some .kwElse)
      (fun e => bareExpr e = t.expr) := by
  refine reads_exprFrom_of_unary (fun k hk => hk.1.2) ?_
  refine (reads_unary_branches h hp n hn).mono (fun k hk => ?_) fun _ h => h
  refine ⟨hk.1.1, fun op hop => ?_, fun _ => hk.2⟩
  rw [hk.1.2] at hop
  cases hop

/-- A semicolon ends all branches at once. -/
lemma reads_exprFrom_seq (h : Branches ws t) (hp : t.Proper) {n : Nat}
    (hn : t.nesting ≤ n + 2) (semicolon name : String) :
    Reads (exprFrom (deeper (n + 1)) anyRank) (ws ++ [(.semicolon, semicolon), (.genid, name)])
      endsExpr (fun e => bareExpr e = .binary default .seq t.expr (.var default name)) := by
  have hfirst : endsBranch t (some .semicolon) := by
    refine ⟨by decide, ?_, nofun⟩
    rintro _ ⟨⟩
    decide
  have hright : Reads ((deeper (n + 1)).exprFrom BinaryOp.seq.rightRank) [(.genid, name)] endsExpr
      (fun e => bareExpr e = .var default name) := by
    rw [deeper_succ]
    exact reads_exprFrom_of_unary (fun k hk => hk.2)
      ((reads_unary_name n name).mono (fun k hk => hk.1) fun _ h => h)
  unfold exprFrom
  refine reads_bind (reads_unary_branches h hp (n + 1) hn) (fun l hleft => ?_) (fun _ _ => hfirst)
  refine reads_remaining_bind fun m => ?_
  rw [climbUpTo]
  refine reads_peekKind_bind ?_
  show Reads (advance >>= fun _ => _) _ _ _
  refine reads_advance_bind fun _ _ => ?_
  refine reads_bind_last hright (fun r hright => reads_newSite_bind fun _ => ?_)
  refine reads_climbUpTo_stop (fun k hk => hk.2) ?_
  rw [bareExpr, hleft, hright]

end Reading

/-- Words that can be read as nested conditionals have exactly one tree in which each `else` belongs
to the nearest `if` before it that has none yet, and the parser reads them as this tree. A semicolon
and a name after them stand outside of all branches. -/
theorem else_takes_nearest_if {ws : List Word} {tree : Branching} (h : Branches ws tree) :
    ∃ t : Branching,
      (∀ t', Branches ws t' ∧ t'.pairs 0 = nearestIfs 0 [] ws ↔ t' = t) ∧
      ∀ levels, t.nesting ≤ levels →
        Reads ((deeper levels).exprFrom anyRank) ws (fun k => endsExpr k ∧ k ≠ some .kwElse)
          (fun e => bareExpr e = t.expr) ∧
        (2 ≤ levels → ∀ semicolon name,
          Reads ((deeper levels).exprFrom anyRank)
            (ws ++ [(.semicolon, semicolon), (.genid, name)]) endsExpr
            (fun e => bareExpr e = .binary default .seq t.expr (.var default name))) := by
  obtain ⟨t, ht, hp⟩ := exists_proper h
  have hnearest : t.pairs 0 = nearestIfs 0 [] ws := by
    have happend := nearestIfs_append ht hp 0 [] []
    rw [List.append_nil, nearestIfs, List.append_nil] at happend
    exact happend.symm
  refine ⟨t, fun t' => ⟨?_, ?_⟩, fun levels hlevels => ⟨?_, fun htwo semicolon name => ?_⟩⟩
  · rintro ⟨ht', hpairs⟩
    exact eq_of_pairs_eq ht' ht (hpairs.trans hnearest.symm)
  · rintro rfl
    exact ⟨ht, hnearest⟩
  · have hone := t.one_le_nesting
    obtain ⟨n, rfl⟩ : ∃ n, levels = n + 1 := ⟨levels - 1, by omega⟩
    rw [deeper_succ]
    exact reads_exprFrom_branches ht hp hlevels
  · obtain ⟨n, rfl⟩ := Nat.exists_eq_add_of_le' htwo
    rw [deeper_succ]
    exact reads_exprFrom_seq ht hp hlevels semicolon name

/-- Three `if`s with two `else`s, before a semicolon. -/
def danglingWords : List Word :=
  [(.kwIf, "if"), (.genid, "a"), (.kwThen, "then"), (.kwIf, "if"), (.genid, "b"), (.kwThen, "then"),
    (.kwIf, "if"), (.genid, "c"), (.kwThen, "then"), (.genid, "x"), (.kwElse, "else"),
    (.genid, "y"), (.kwElse, "else"), (.genid, "z")]

theorem else_takes_nearest_if_dangling :
    Branches danglingWords (.ifElse "a" (.ifElse "b" (.ifThen "c" (.leaf "x")) (.leaf "y"))
      (.leaf "z")) ∧
    Reads (wholeExpr outermost) (danglingWords ++ [(.semicolon, ";"), (.genid, "w")]) endsExpr
      (fun e => bareExpr e = .binary default .seq
        (Branching.ifThen "a" (.ifElse "b" (.ifElse "c" (.leaf "x") (.leaf "y"))
          (.leaf "z"))).expr (.var default "w")) := by
  have hother : Branches danglingWords (.ifElse "a" (.ifElse "b" (.ifThen "c" (.leaf "x"))
      (.leaf "y")) (.leaf "z")) :=
    .ifElse (.ifElse (.ifThen .leaf) .leaf) .leaf
  obtain ⟨t, hunique, hreads⟩ := else_takes_nearest_if hother
  have hnearest : Branching.ifThen "a" (.ifElse "b" (.ifElse "c" (.leaf "x") (.leaf "y"))
      (.leaf "z")) = t :=
    (hunique _).mp ⟨.ifThen (.ifElse (.ifElse .leaf .leaf) .leaf), by decide⟩
  subst hnearest
  exact ⟨hother, (hreads maxNesting (by decide)).2 (by decide) ";" "w"⟩

end Llama.Proofs
