import Llama.Proofs.RecursionDepth

/-!
# The nesting counter

A level of the grammar is counted when it is entered and the count is taken back when it is left,
also with a failure. So the counter is zero wherever a definition begins, whatever failed before it.
The counter and the levels that are left add up to the limit on nesting: a grammar that asks the
counter before it enters a level reads the same, and never comes to the bottom of its levels.
-/

namespace Llama.Proofs

open Llama.Parser Llama.Grammar

variable {α : Type} {d : Deeper} {tokens : Array Token} {k r : Nat} {s s₁ : ParserState}

/-- The parsers of the level above some parsers, which ask the counter. -/
def nestedAbove (d : Deeper) : Deeper where
  exprFrom rank := nested (exprFrom d rank)
  operand := nested (unary d)
  simple := nested (simpleExpr d)
  ty := nested (arrowType d)
  arrayTy := nested (arrayType d)
  pattern := nested (pattern d)

/-- A number of levels that ask the counter, above any parsers at the bottom. -/
def nestedLevels (bottom : Deeper) : Nat → Deeper
  | 0 => bottom
  | levels + 1 => nestedAbove (nestedLevels bottom levels)

lemma nested_run (p : Parser α) (tokens : Array Token) (s : ParserState) :
    nested p tokens s = (if s.depth < maxNesting then counted p else tooDeep) tokens s := rfl

lemma same_nested {p q : Parser α} (hk : k < maxNesting) (h : Same tokens (k + 1) r p q) :
    Same tokens k r (nested p) (counted q) := by
  intro s hdepth hs hr
  have hsame := h { s with depth := s.depth + 1 } (congrArg (· + 1) hdepth) hs hr
  rw [nested_run, if_pos (hdepth ▸ hk), counted, counted, hsame]

lemma same_nested_tooDeep (p : Parser α) : Same tokens maxNesting r (nested p) tooDeep := by
  intro s hdepth _ _
  rw [nested_run, if_neg (hdepth ▸ Nat.lt_irrefl _)]

/-- Where the counter and the levels that are left add up to the limit, the counter refuses the same
as the bottom of the levels. -/
theorem nestedLevels_same (bottom : Deeper) {levels : Nat} (h : k + levels = maxNesting) (r : Nat) :
    DeeperSame tokens k r (nestedLevels bottom (levels + 1)) (deeper levels) := by
  induction levels generalizing k with
  | zero =>
    obtain rfl : k = maxNesting := h
    exact ⟨fun _ => same_nested_tooDeep _, same_nested_tooDeep _, same_nested_tooDeep _,
      same_nested_tooDeep _, (same_nested_tooDeep _).here, same_nested_tooDeep _⟩
  | succ levels ih =>
    have hk : k < maxNesting := by omega
    have hbelow := ih (k := k + 1) (by omega)
    have habove := levelAbove_same hbelow (deeper_scans levels)
    have hle : r ≤ r + 1 := Nat.le_succ r
    exact ⟨fun rank => same_nested hk ((habove.exprFrom rank).mono hle),
      same_nested hk (habove.operand.mono hle), same_nested hk (habove.simple.mono hle),
      same_nested hk (habove.ty.mono hle),
      (same_nested hk ((same_arrayType hbelow).mono (Nat.le_succ _))).here,
      same_nested hk (habove.pattern.mono hle)⟩

/-- The state in which reading goes on after a definition was tried, whether it was read or not. -/
def afterRound (d : Deeper) (tokens : Array Token) (s : ParserState) : ParserState :=
  match definition d tokens { s with furthest := none } with
  | (.ok _, s₁) => s₁
  | (.error e, s₁) => (recover s.index e tokens s₁).2

/-- In this state a definition is begun while a program is read, or reading ends. -/
inductive StartsRound (d : Deeper) (tokens : Array Token) : ParserState → Prop
  | first : StartsRound d tokens ParserState.initial
  | next {s : ParserState} : StartsRound d tokens s → s.index < tokens.size →
      StartsRound d tokens (afterRound d tokens s)

lemma afterRound_read {first : Definition}
    (hrun : definition d tokens { s with furthest := none } = (.ok first, s₁)) :
    afterRound d tokens s = s₁ := by
  rw [afterRound, hrun]

lemma afterRound_failed {e e' : SyntaxError}
    (hrun : definition d tokens { s with furthest := none } = (.error e', s₁))
    (hkept : s₁.furthest = some e) : afterRound d tokens s = resumed tokens s.index e s₁ := by
  rw [afterRound, hrun]
  dsimp only
  rw [recover_run hkept]

/-- Where a definition begins the counter is zero. -/
lemma StartsRound.depth_eq_zero (h : StartsRound outermost tokens s) : s.depth = 0 := by
  induction h with
  | first => rfl
  | @next s _ hsize ih =>
    rcases definition_run hsize with ⟨first, s₁, hrun, -⟩ | ⟨e, e', s₁, hrun, hkept, -⟩
    · rw [afterRound_read hrun]
      exact (entered_of_run hrun).depth.trans ih
    · rw [afterRound_failed hrun hkept]
      exact (entered_of_run hrun).depth.trans ih

lemma afterRound_nestedLevels (bottom : Deeper) (hdepth : s.depth = 0)
    (hsize : s.index < tokens.size) :
    afterRound (nestedLevels bottom (maxNesting + 1)) tokens s = afterRound outermost tokens s := by
  have hsame := same_definition
    (nestedLevels_same bottom (Nat.zero_add maxNesting) tokens.size) (deeper_scans maxNesting)
    { s with furthest := none } hdepth (Nat.le_of_lt hsize) (by dsimp only; omega)
  rw [afterRound, hsame]
  rfl

lemma startsRound_nestedLevels_iff (bottom : Deeper) :
    StartsRound (nestedLevels bottom (maxNesting + 1)) tokens s ↔
      StartsRound outermost tokens s := by
  constructor
  · intro h
    induction h with
    | first => exact .first
    | next _ hsize ih =>
      rw [afterRound_nestedLevels bottom ih.depth_eq_zero hsize]
      exact .next ih hsize
  · intro h
    induction h with
    | first => exact .first
    | next h hsize ih =>
      rw [← afterRound_nestedLevels bottom h.depth_eq_zero hsize]
      exact .next ih hsize

lemma Rounds.startsRound {attempts : List Attempt} {s' : ParserState}
    (h : Rounds tokens s attempts s') (hs : StartsRound outermost tokens s) :
    ∀ attempt ∈ attempts, ∃ s, StartsRound outermost tokens s ∧ s.index = attempt.start := by
  induction h with
  | done => exact nofun
  | @read s s₁ _ _ _ hsize hrun _ ih =>
    refine List.forall_mem_cons.mpr ⟨⟨s, hs, rfl⟩, ih ?_⟩
    rw [← afterRound_read hrun]
    exact .next hs hsize
  | @failed s s₁ _ _ _ _ hsize hrun hkept _ ih =>
    refine List.forall_mem_cons.mpr ⟨⟨s, hs, rfl⟩, ih ?_⟩
    rw [← afterRound_failed hrun hkept]
    exact .next hs hsize

/-- How levels are counted while the attempts at definitions are made. -/
structure CountsLevels (tokens : List Token) (attempts : List Attempt) : Prop where
  begins : ∀ attempt ∈ attempts,
    ∃ s, StartsRound outermost tokens.toArray s ∧ s.index = attempt.start
  /-- The counter is zero, also after a definition that failed. -/
  depth : ∀ s, StartsRound outermost tokens.toArray s → s.depth = 0
  /-- To ask the counter at each level instead of counting the levels that are left is the same,
  whatever stands at the bottom of the levels. -/
  asked : ∀ bottom,
    definitions (nestedLevels bottom (maxNesting + 1)) tokens.toArray ParserState.initial =
        definitions outermost tokens.toArray ParserState.initial ∧
      ∀ s, StartsRound (nestedLevels bottom (maxNesting + 1)) tokens.toArray s ↔
        StartsRound outermost tokens.toArray s

lemma Rounds.countsLevels {tokens : List Token} {attempts : List Attempt} {s' : ParserState}
    (h : Rounds tokens.toArray ParserState.initial attempts s') : CountsLevels tokens attempts where
  begins := h.startsRound .first
  depth _ hs := hs.depth_eq_zero
  asked bottom :=
    ⟨definitionsUpTo_same (nestedLevels_same bottom (Nat.zero_add maxNesting) tokens.length)
      (deeper_scans maxNesting) _ rfl (Nat.zero_le _) (Nat.le_refl _),
      fun _ => startsRound_nestedLevels_iff bottom⟩

end Llama.Proofs
