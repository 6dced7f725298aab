import Llama.Proofs.NestingLimit
import Llama.Proofs.RecursionDepth

/-!
# Reading comes to an end

The parsers bound each of their loops by the number of tokens that are left. The bound is never
what ends a loop: `Loop` runs a step again and again without a bound, as long as every step that
goes on takes a token and stays within the input, and each loop of the grammar is such a run.
Together with the depth of recursion this shows that reading comes to an end on every list of
tokens, after no more rounds of any loop and on no more levels than there are tokens.
-/

namespace Llama.Proofs

open Llama.Parser Llama.Grammar

variable {α σ ρ : Type} {d : Deeper} {tokens : Array Token} {s : ParserState} {item : Parser α}

/-! ### Loops without a bound -/

/-- Runs a step until it gives a result or fails. The number counts the steps that go on: each of
them takes a token and stays within the input. -/
inductive Loop (step : σ → Parser (σ ⊕ ρ)) (tokens : Array Token) :
    Nat → σ → ParserState → Except SyntaxError ρ × ParserState → Prop
  | done {x : σ} {s s' : ParserState} {result : ρ}
      (hrun : step x tokens s = (.ok (.inr result), s')) : Loop step tokens 0 x s (.ok result, s')
  | failed {x : σ} {s s' : ParserState} {e : SyntaxError}
      (hrun : step x tokens s = (.error e, s')) : Loop step tokens 0 x s (.error e, s')
  | again {x y : σ} {s s₁ : ParserState} {n : Nat} {result : Except SyntaxError ρ × ParserState}
      (hrun : step x tokens s = (.ok (.inl y), s₁)) (hmore : s.index < s₁.index)
      (hle : s₁.index ≤ tokens.size) (hrest : Loop step tokens n y s₁ result) :
      Loop step tokens (n + 1) x s result

/-- The steps of a loop that go on take a token each and stay within the input. -/
def StepsOn (step : σ → Parser (σ ⊕ ρ)) (tokens : Array Token) : Prop :=
  ∀ x y s s₁, s.index ≤ tokens.size → step x tokens s = (.ok (.inl y), s₁) →
    s.index < s₁.index ∧ s₁.index ≤ tokens.size

/-- The result is that of the loop, which goes on no more often than there are tokens left. -/
def LoopsTo (step : σ → Parser (σ ⊕ ρ)) (tokens : Array Token) (x : σ) (s : ParserState)
    (result : Except SyntaxError ρ × ParserState) : Prop :=
  ∃ n, n ≤ tokens.size - s.index ∧ Loop step tokens n x s result

/-- A loop with a bound of its own, which it tests before each step, runs like the loop without
one, if the bound is at least the number of tokens left and the step does not go on at the end of
the input. -/
lemma loopsTo_bounded {step : σ → Parser (σ ⊕ ρ)} (bounded : Nat → σ → Parser ρ)
    (hsucc : ∀ n x, bounded (n + 1) x = step x >>= Sum.elim (bounded n) pure)
    (hzero : ∀ x s, s.index = tokens.size → ∃ result s', step x tokens s = (.ok (.inr result), s') ∧
      bounded 0 x tokens s = (.ok result, s'))
    (hsteps : StepsOn step tokens) (count : Nat) (x : σ) (s : ParserState)
    (hs : s.index ≤ tokens.size) (hcount : tokens.size - s.index ≤ count) :
    LoopsTo step tokens x s (bounded count x tokens s) := by
  induction count generalizing x s with
  | zero =>
    obtain ⟨result, s', hstep, hrun⟩ := hzero x s (by omega)
    rw [hrun]
    exact ⟨0, Nat.zero_le _, .done hstep⟩
  | succ count ih =>
    rw [hsucc]
    cases hstep : step x tokens s with
    | mk outcome s₁ =>
      cases outcome with
      | error e =>
        rw [bind_run_error hstep]
        exact ⟨0, Nat.zero_le _, .failed hstep⟩
      | ok outcome =>
        rw [bind_run_ok hstep]
        cases outcome with
        | inr result => exact ⟨0, Nat.zero_le _, .done hstep⟩
        | inl y =>
          obtain ⟨hmore, hle⟩ := hsteps x y s s₁ hs hstep
          obtain ⟨n, hn, hloop⟩ := ih y s₁ hle (by omega)
          exact ⟨n + 1, by omega, .again hstep hmore hle hloop⟩

lemma peekKind_end (h : s.index = tokens.size) : peekKind tokens s = (.ok none, s) := by
  rw [peekKind_run_index, Array.getElem?_eq_none (Nat.le_of_eq h.symm)]
  rfl

/-- One more item, if the next token starts one. -/
def repeatStep (starts : TokenKind → Bool) (item : Parser α) (items : List α) :
    Parser (List α ⊕ List α) := do
  if ← startsWith starts then return .inl (items ++ [← item])
  else return .inr items

lemma stepsOn_repeat {starts : TokenKind → Bool} (hadvances : Advances item)
    (hscans : Scans anywhere item) : StepsOn (repeatStep starts item) tokens := by
  intro items items' s s₁ hs hrun
  obtain ⟨starting, s₀, hstarts, hrest⟩ := exists_of_bind_run hrun
  have hstill : s₀ = s := by
    cases hstarts
    rfl
  subst hstill
  by_cases hstart : starting = true
  · rw [if_pos hstart] at hrest
    obtain ⟨a, s₂, hitem, hlast⟩ := exists_of_bind_run hrest
    cases hlast
    exact ⟨hadvances _ _ _ _ hitem, hscans.le_size hs hitem⟩
  · rw [if_neg hstart] at hrest
    cases hrest

/-- At most a number of items after those that were read before. -/
def itemsUpTo (starts : TokenKind → Bool) (item : Parser α) (n : Nat) (items : List α) :
    Parser (List α) := do
  let rest ← manyUpTo starts item n
  pure (items ++ rest)

lemma itemsUpTo_succ (starts : TokenKind → Bool) (item : Parser α) (n : Nat) (items : List α) :
    itemsUpTo starts item (n + 1) items =
      repeatStep starts item items >>= Sum.elim (itemsUpTo starts item n) pure := by
  rw [itemsUpTo, manyUpTo, repeatStep, bind_assoc, bind_assoc]
  congr 1
  funext starting
  cases starting with
  | false => simp
  | true =>
    simp only [if_true, bind_assoc, pure_bind, Sum.elim_inl, itemsUpTo, List.append_assoc,
      List.singleton_append]

/-- A loop of the grammar that reads items one after the other. -/
lemma loopsTo_many (starts : TokenKind → Bool) (hadvances : Advances item)
    (hscans : Scans anywhere item) (hs : s.index ≤ tokens.size) :
    LoopsTo (repeatStep starts item) tokens [] s (many starts item tokens s) := by
  have hmany : many starts item tokens s =
      itemsUpTo starts item (tokens.size - s.index) [] tokens s := by
    rw [many, bind_run_ok (remaining_run _ _), itemsUpTo]
    simp only [List.nil_append, bind_pure]
  rw [hmany]
  refine loopsTo_bounded (itemsUpTo starts item) (itemsUpTo_succ starts item)
    (fun items s hend => ?_) (stepsOn_repeat hadvances hscans) _ _ _ hs (Nat.le_refl _)
  have hnone : startsWith starts tokens s = (.ok false, s) := by
    have hpeek : peekKind tokens s = (.ok none, s) := peekKind_end hend
    rw [startsWith, bind_run_ok hpeek]
    rfl
  refine ⟨items, s, ?_, ?_⟩
  · rw [repeatStep, bind_run_ok hnone]
    rfl
  · simp [itemsUpTo, manyUpTo]
    rfl

/-- One more operator that binds tightly enough, with its right operand. -/
def climbStep (d : Deeper) (rank : Nat) : Expr × Option Nat →
    Parser ((Expr × Option Nat) ⊕ Expr) := fun (left, chained) => do
  match (← peekKind).bind BinaryOp.ofToken? with
  | none => return .inr left
  | some op =>
    if op.rank < rank then return .inr left
    else if op.assoc = .none && chained = some op.rank then
      failWith ((← errorHere).noting ("operator '" ++ op.symbol ++ "' is not associative"))
    else
      let _ ← advance
      let right ← d.exprFrom op.rightRank
      let site ← newSite (left.site.span.merge right.site.span)
      return .inl (.binary site op left right, if op.assoc = .none then some op.rank else none)

lemma climbUpTo_succ (d : Deeper) (rank n : Nat) (x : Expr × Option Nat) :
    climbUpTo d rank (n + 1) x.1 x.2 =
      climbStep d rank x >>= Sum.elim (fun y => climbUpTo d rank n y.1 y.2) pure := by
  rw [climbUpTo, climbStep, bind_assoc]
  congr 1
  funext kind
  cases kind.bind BinaryOp.ofToken? with
  | none => rfl
  | some op =>
    dsimp only
    by_cases hrank : op.rank < rank
    · rw [if_pos hrank, if_pos hrank]
      rfl
    · rw [if_neg hrank, if_neg hrank]
      by_cases hchained : (decide (op.assoc = .none) && decide (x.2 = some op.rank)) = true
      · rw [if_pos hchained, if_pos hchained]
        rfl
      · rw [if_neg hchained, if_neg hchained]
        simp only [bind_assoc, pure_bind, Sum.elim_inl]

lemma stepsOn_climb (h : DeeperScans anywhere d) (rank : Nat) :
    StepsOn (climbStep d rank) tokens := by
  intro x y s s₁ hs hrun
  rw [climbStep, bind_run_ok (peekKind_run_index _ _)] at hrun
  by_cases hsize : s.index < tokens.size
  · cases hop : (tokens[s.index]?.map Token.kind).bind BinaryOp.ofToken? with
    | none =>
      rw [hop] at hrun
      cases hrun
    | some op =>
      rw [hop] at hrun
      dsimp only at hrun
      split at hrun
      · cases hrun
      · split at hrun
        · cases hrun
        · -- What goes on takes the operator first.
          refine ⟨advancesHere_bind advancesHere_advance (fun _ => ?_) _ _ _ _ hsize hrun,
            Scans.le_size (.bind .advance fun _ => ?_) hs hrun⟩
          all_goals exact .bind (h.exprFrom _) fun _ => .bind (scans_newSite _) fun _ => .pure _
  · rw [Array.getElem?_eq_none (by omega)] at hrun
    cases hrun

/-- The operators after a left operand are read by a loop. -/
lemma loopsTo_climb (h : DeeperScans anywhere d) (rank : Nat) (left : Expr) (chained : Option Nat)
    (hs : s.index ≤ tokens.size) :
    LoopsTo (climbStep d rank) tokens (left, chained) s
      (climbUpTo d rank (tokens.size - s.index) left chained tokens s) := by
  refine loopsTo_bounded (fun n x => climbUpTo d rank n x.1 x.2) (climbUpTo_succ d rank)
    (fun x s hend => ⟨x.1, s, ?_, rfl⟩) (stepsOn_climb h rank) _ (left, chained) s hs
    (Nat.le_refl _)
  rw [climbStep, bind_run_ok (peekKind_end hend)]
  rfl

/-- One more token, unless it starts a definition. -/
def skipStep (_ : Unit) : Parser (Unit ⊕ Unit) := do
  match ← peekKind with
  | none => return .inr ()
  | some kind =>
    if startsDefinition kind then return .inr ()
    else
      let _ ← advance
      return .inl ()

lemma skipUpTo_succ (n : Nat) (x : Unit) :
    skipUpTo (n + 1) = skipStep x >>= Sum.elim (fun _ => skipUpTo n) pure := by
  rw [skipUpTo, skipStep, bind_assoc]
  congr 1
  funext kind
  cases kind with
  | none => rfl
  | some kind =>
    dsimp only
    by_cases hstarts : startsDefinition kind = true
    · rw [if_pos hstarts, if_pos hstarts]
      rfl
    · rw [if_neg hstarts, if_neg hstarts]
      simp only [bind_assoc, pure_bind, Sum.elim_inl]

lemma stepsOn_skip : StepsOn skipStep tokens := by
  intro x y s s₁ hs hrun
  rw [skipStep, bind_run_ok (peekKind_run_index _ _)] at hrun
  by_cases hsize : s.index < tokens.size
  · rw [Array.getElem?_eq_getElem hsize, Option.map_some] at hrun
    dsimp only at hrun
    split at hrun
    · cases hrun
    · exact ⟨advancesHere_bind advancesHere_advance (fun _ => .pure _) _ _ _ _ hsize hrun,
        Scans.le_size (.bind .advance fun _ => .pure _) hs hrun⟩
  · rw [Array.getElem?_eq_none (by omega)] at hrun
    cases hrun

lemma loopsTo_skip (hs : s.index ≤ tokens.size) :
    LoopsTo skipStep tokens () s (skipUpTo (tokens.size - s.index) tokens s) := by
  refine loopsTo_bounded (fun n _ => skipUpTo n) skipUpTo_succ
    (fun x s hend => ⟨(), s, ?_, rfl⟩) stepsOn_skip _ () s hs (Nat.le_refl _)
  rw [skipStep, bind_run_ok (peekKind_end hend)]
  rfl

/-- One more round of reading: a definition, or what has to be skipped where there is none. -/
def definitionStep (d : Deeper) (ds : List Definition) :
    Parser (List Definition ⊕ List Definition) := do
  if (← remaining) = 0 then return .inr ds
  else
    clearFurthest
    let start ← index
    match ← attempt (definition d) with
    | .ok first => return .inl (ds ++ [first])
    | .error e =>
      recover start e
      return .inl ds

/-- At most a number of definitions after those that were read before. -/
def definitionsAfter (d : Deeper) (n : Nat) (ds : List Definition) : Parser (List Definition) := do
  let rest ← definitionsUpTo d n
  pure (ds ++ rest)

lemma definitionsAfter_succ (d : Deeper) (n : Nat) (ds : List Definition) :
    definitionsAfter d (n + 1) ds =
      definitionStep d ds >>= Sum.elim (definitionsAfter d n) pure := by
  rw [definitionsAfter, definitionsUpTo, definitionStep, bind_assoc, bind_assoc]
  congr 1
  funext left
  by_cases hend : left = 0
  · rw [if_pos hend, if_pos hend]
    simp
  · rw [if_neg hend, if_neg hend]
    simp only [bind_assoc]
    congr 1
    funext _
    congr 1
    funext start
    congr 1
    funext outcome
    cases outcome with
    | ok first =>
      simp only [bind_assoc, pure_bind, Sum.elim_inl, definitionsAfter, List.append_assoc,
        List.singleton_append]
    | error e => simp only [bind_assoc, pure_bind, Sum.elim_inl, definitionsAfter]

lemma stepsOn_definition (h : ∀ {placed}, DeeperScans placed d) :
    StepsOn (definitionStep d) tokens := by
  intro ds ds' s s₁ hs hrun
  have hclear : clearFurthest tokens s = (.ok (), { s with furthest := none }) := rfl
  have hindex : index tokens { s with furthest := none } =
    (.ok s.index, { s with furthest := none }) := rfl
  rw [definitionStep, bind_run_ok (remaining_run _ _)] at hrun
  split at hrun
  next => cases hrun
  next hend =>
    have hsize : s.index < tokens.size := by omega
    rw [bind_run_ok hclear, bind_run_ok hindex] at hrun
    rcases definition_ends h (s := { s with furthest := none }) hsize rfl with
      ⟨first, s₂, hdefinition, hmore, hle⟩ | ⟨e, e', s₂, hdefinition, hkept, hblames⟩
    · rw [bind_run_ok (attempt_run hdefinition)] at hrun
      cases hrun
      exact ⟨hmore, hle⟩
    · rw [bind_run_ok (attempt_run hdefinition)] at hrun
      dsimp only at hrun
      rw [bind_run_ok (recover_run hkept _ _)] at hrun
      cases hrun
      exact hblames.lt_nextStart hsize

/-- The definitions of a program are read by a loop, which also goes on after errors. -/
lemma loopsTo_definitions (h : ∀ {placed}, DeeperScans placed d) (hs : s.index ≤ tokens.size) :
    LoopsTo (definitionStep d) tokens [] s (definitions d tokens s) := by
  have hdefinitions : definitions d tokens s =
      definitionsAfter d (tokens.size - s.index) [] tokens s := by
    rw [definitions, bind_run_ok (remaining_run _ _), definitionsAfter]
    simp only [List.nil_append, bind_pure]
  rw [hdefinitions]
  refine loopsTo_bounded (definitionsAfter d) (definitionsAfter_succ d)
    (fun ds s hend => ⟨ds, s, ?_, ?_⟩) (stepsOn_definition h) _ _ _ hs (Nat.le_refl _)
  · rw [definitionStep, bind_run_ok (remaining_run _ _), if_pos (by omega)]
    rfl
  · rw [definitionsAfter, definitionsUpTo, pure_bind, List.append_nil]
    rfl

/-- The items are read by a loop, from every position of the input. -/
def Repeats (tokens : Array Token) (starts : TokenKind → Bool) (item : Parser α) : Prop :=
  ∀ s, s.index ≤ tokens.size →
    LoopsTo (repeatStep starts item) tokens [] s (many starts item tokens s)

/-- The items after the first, each with a separator before it, are read by a loop. -/
def Separates (tokens : Array Token) (separator : TokenKind) (item : Parser α) : Prop :=
  Repeats tokens (· == separator) (do let _ ← expect separator; item)

lemma separates_of_scans {separator : TokenKind} (h : Scans anywhere item) :
    Separates tokens separator item := by
  refine fun _ => loopsTo_many _ (advances_bind (advances_expect _) fun _ => h) ?_
  exact .bind (scans_expect _) fun _ => h

/-- The loops of the parsers of one level. -/
structure LevelLoops (tokens : Array Token) (d : Deeper) : Prop where
  arguments : Repeats tokens startsSimple (simpleExpr d)
  patterns : Repeats tokens startsSimplePattern (simplePattern d)
  params : Repeats tokens startsParam (param d)
  types : Repeats tokens startsType d.ty
  refs : Repeats tokens (· == .kwRef) (expect .kwRef)
  dimensions : Separates tokens .comma (expect .times)
  indices : Separates tokens .comma (wholeExpr d)
  clauses : Separates tokens .pipe (clause d)
  constructors : Separates tokens .pipe (constructorDef d)
  definitions : Separates tokens .kwAnd (letDef d)
  typeDefinitions : Separates tokens .kwAnd (typeDef d)
  operators : ∀ rank left chained s, s.index ≤ tokens.size →
    LoopsTo (climbStep d rank) tokens (left, chained) s
      (climbUpTo d rank (tokens.size - s.index) left chained tokens s)

lemma deeper_loops (tokens : Array Token) (levels : Nat) :
    LevelLoops tokens (deeper levels) := by
  have hs : DeeperScans anywhere (deeper levels) := deeper_scans levels
  have hty : Advances (deeper levels).ty := (deeper_advances levels).ty
  exact {
    arguments := fun _ => loopsTo_many _ (advances_simpleExpr hs) (scans_simpleExpr hs)
    patterns := fun _ => loopsTo_many _ (advances_simplePattern hs) (scans_simplePattern hs)
    params := fun _ => loopsTo_many _ (advances_param hs) (scans_param hs)
    types := fun _ => loopsTo_many _ hty hs.ty
    refs := fun _ => loopsTo_many _ (advances_expect _) (scans_expect _)
    dimensions := separates_of_scans (scans_expect _)
    indices := separates_of_scans (scans_wholeExpr hs)
    clauses := separates_of_scans (scans_clause hs)
    constructors := separates_of_scans (scans_constructorDef hs)
    definitions := separates_of_scans (scans_letDef hs)
    typeDefinitions := separates_of_scans (scans_typeDef hs)
    operators := fun rank left chained _ => loopsTo_climb hs rank left chained }

/-- The parser fails where it stands. -/
def FailsHere (p : Parser α) : Prop :=
  ∀ tokens s, ∃ e s', p tokens s = (.error e, s') ∧ s'.index = s.index

lemma failsHere_tooDeep : FailsHere (tooDeep : Parser α) := fun _ _ => ⟨_, _, rfl, rfl⟩

/-- The parsers that fail where they stand. -/
structure DeeperFails (d : Deeper) : Prop where
  exprFrom : ∀ rank, FailsHere (d.exprFrom rank)
  operand : FailsHere d.operand
  simple : FailsHere d.simple
  ty : FailsHere d.ty
  arrayTy : FailsHere d.arrayTy
  pattern : FailsHere d.pattern

lemma Rounds.index_eq {s' : ParserState} {attempts : List Attempt}
    (h : Rounds tokens s attempts s') : s'.index = tokens.size := by
  induction h with
  | done hend => exact hend
  | read _ _ _ ih => exact ih
  | failed _ _ _ _ ih => exact ih

/-- Reading comes to an end on a list of tokens. -/
structure ReadingEnds (tokens : List Token) : Prop where
  /-- The program is read in no more rounds than there are tokens. Each of them begins further on
  than the one before, and after the last one all tokens are used up. -/
  program : ∃ rounds ds s, rounds ≤ tokens.length ∧
    Loop (definitionStep outermost) tokens.toArray rounds [] ParserState.initial (.ok ds, s) ∧
    s.index = tokens.length ∧
    parse tokens = ⟨if s.reports.any fun r => r.syntaxError?.isSome then none
      else some ⟨ds, s.nextId⟩, s.types, s.reports⟩
  /-- Skipping tokens after an error takes a token in each step. -/
  skipping : ∀ s, s.index ≤ tokens.length →
    LoopsTo skipStep tokens.toArray () s (skipUpTo (tokens.length - s.index) tokens.toArray s)
  /-- So do the loops on every level. -/
  loops : ∀ levels, LevelLoops tokens.toArray (deeper levels)
  /-- From one level to the next a token is taken: no parser reaches the bottom of more levels than
  there are tokens left, whatever stands there. -/
  cycles : ∀ bottom depth levels,
    DeeperSame tokens.toArray depth levels (levelsAbove bottom levels) (deeper levels)
  /-- So as many levels as there are tokens suffice for the whole program. -/
  levels : ∀ bottom levels, tokens.length ≤ levels →
    Grammar.definitions (levelsAbove bottom levels) tokens.toArray ParserState.initial =
      Grammar.definitions (deeper tokens.length) tokens.toArray ParserState.initial
  /-- Below the limit on nesting nothing is read. -/
  limit : outermost = levelsAbove Deeper.none maxNesting ∧ DeeperFails Deeper.none
  nesting : ∀ program, (parse tokens).program = some program →
    ∀ n ∈ program.nodes, nodeNesting n ≤ maxNesting

/-- Reading comes to an end on every list of tokens. -/
theorem parse_readingEnds (tokens : List Token) : ReadingEnds tokens where
  program := by
    obtain ⟨attempts, s, hrounds⟩ := exists_rounds tokens.toArray ParserState.initial
      (Nat.zero_le _)
    have hrun : definitions outermost tokens.toArray ParserState.initial =
        (.ok (definitionsOf attempts), s) := hrounds.run (Nat.le_refl _)
    have hloops : LoopsTo (definitionStep outermost) tokens.toArray [] ParserState.initial
        (definitions outermost tokens.toArray ParserState.initial) :=
      loopsTo_definitions outermost_scans (Nat.zero_le _)
    rw [hrun] at hloops
    obtain ⟨rounds, hbound, hloop⟩ := hloops
    refine ⟨rounds, definitionsOf attempts, s, hbound, hloop, hrounds.index_eq, ?_⟩
    unfold parse Parser.run
    rw [hrun]
  skipping := fun _ hs => loopsTo_skip hs
  loops := deeper_loops tokens.toArray
  cycles := fun bottom => levelsAbove_same bottom tokens.toArray
  levels := fun bottom _ => definitions_levelsAbove bottom tokens
  limit := by
    have hbottom : DeeperFails Deeper.none :=
      ⟨fun _ => failsHere_tooDeep, failsHere_tooDeep, failsHere_tooDeep, failsHere_tooDeep,
        failsHere_tooDeep, failsHere_tooDeep⟩
    exact ⟨(levelsAbove_none maxNesting).symm, hbottom⟩
  nesting := fun _ => nodeNesting_le_maxNesting

end Llama.Proofs
