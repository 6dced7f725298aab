import Llama.Proofs.WindowReading

/-!
# One program after another

A program that is followed by another is read as it is read alone, and so is the other, whose
nodes are numbered from where the numbers of the first end.
-/

namespace Llama.Proofs

open Llama.Parser Llama.Grammar

variable {w : Window} {agree : Prop} {d : Deeper} {s t : ParserState}

/-- Between definitions, reading in a window alone and reading where it stands have come equally
far. -/
structure Parallel (w : Window) (s t : ParserState) : Prop where
  index : t.index = w.before.length + s.index
  nextId : t.nextId = s.nextId + w.shift
  le : s.index ≤ w.tokens.length

lemma Aligned.parallel (h : Aligned w s t) : Parallel w s t := ⟨h.index, h.nextId, h.le⟩

lemma carries_types (h : DeeperCarries w agree d) (start : Token) :
    Carries w agree
      (afterType d start >>= enterTree >>= fun group => pure (Definition.types group))
      (afterType d start >>= enterTree >>= fun group => pure (Definition.types group))
      (shiftDefinition w.shift) :=
  ((carries_afterType h start).bind carries_enterTree).bind fun _ => carries_pure rfl

lemma carries_lets (h : DeeperCarries w agree d) (start : Token) :
    Carries w agree (afterLet d start >>= fun group => pure (Definition.lets group))
      (afterLet d start >>= fun group => pure (Definition.lets group))
      (shiftDefinition w.shift) :=
  (carries_afterLet h start).bind fun _ => carries_pure rfl

/-- A definition whose first token fits carries over. -/
lemma Parallel.definition (hagree : agree → w.after = []) (hst : Parallel w s t)
    (hs : s.furthest = none) (ht : t.furthest = none) {token : Token}
    (hget : w.inner[s.index]? = some token) (hstarts : startsDefinition token.kind = true) :
    CarriesAt w agree (Grammar.definition outermost) (Grammar.definition outermost)
      (shiftDefinition w.shift) s t := by
  have hcarries : DeeperCarries w agree outermost := deeper_carries hagree maxNesting
  have hlt : s.index < w.tokens.length := (Array.getElem?_eq_some_iff.mp hget).1
  have hget' : w.whole[t.index]? = some token := by
    rw [hst.index, Window.whole_of_lt hlt, hget]
  have hnext : Aligned w { s with index := s.index + 1 } { t with index := t.index + 1 } :=
    ⟨by rw [hst.index, Nat.add_assoc], hst.nextId, by rw [hs, ht]; rfl, Nat.succ_pos _, hlt⟩
  rcases definition_cases w.inner s.index with ⟨_, hfirst, hkind⟩ | ⟨_, hfirst, hkind⟩ | hother
  · cases hget.symm.trans hfirst
    exact (carries_types hcarries token _ _ hnext).of_runs (definition_run_types hget hkind)
      (definition_run_types hget' hkind)
  · cases hget.symm.trans hfirst
    exact (carries_lets hcarries token _ _ hnext).of_runs (definition_run_lets hget hkind)
      (definition_run_lets hget' hkind)
  · rw [hother token hget] at hstarts
    cases hstarts

lemma starts_of_read {tokens : Array Token} {first : Definition} {s₁ : ParserState}
    (hrun : definition d tokens { s with furthest := none } = (.ok first, s₁)) :
    ∃ token, tokens[s.index]? = some token ∧ startsDefinition token.kind = true := by
  rcases definition_cases tokens s.index with ⟨token, hget, hkind⟩ | ⟨token, hget, hkind⟩ | hother
  · exact ⟨token, hget, by rw [hkind]; rfl⟩
  · exact ⟨token, hget, by rw [hkind]; rfl⟩
  · have hfails := definition_fails (d := d) (s := { s with furthest := none }) hother rfl
    cases hfails.symm.trans hrun

lemma Parallel.read (hst : Parallel w s t) {first : Definition} {s₁ : ParserState}
    (hrun : Grammar.definition outermost w.inner { s with furthest := none } = (.ok first, s₁)) :
    ∃ t₁, Grammar.definition outermost w.whole { t with furthest := none } =
        (.ok (shiftDefinition w.shift first), t₁) ∧ Parallel w s₁ t₁ := by
  obtain ⟨token, hget, hstarts⟩ := starts_of_read hrun
  have hcleared : Parallel w { s with furthest := none } { t with furthest := none } :=
    ⟨hst.index, hst.nextId, hst.le⟩
  obtain ⟨t₁, hrun', hst₁⟩ :=
    (hcleared.definition False.elim rfl rfl hget hstarts).ok first s₁ hrun
  exact ⟨t₁, hrun', hst₁.parallel⟩

/-- An attempt in a window, where the window stands. -/
def Window.attemptView (w : Window) (attempt : Attempt) : Attempt :=
  ⟨w.before.length + attempt.start, w.before.length + attempt.stop,
    attempt.outcome.map (shiftDefinition w.shift)⟩

lemma definitionsOf_append (attempts attempts' : List Attempt) :
    definitionsOf (attempts ++ attempts') = definitionsOf attempts ++ definitionsOf attempts' :=
  List.filterMap_append

lemma errorsOf_append (attempts attempts' : List Attempt) :
    errorsOf (attempts ++ attempts') = errorsOf attempts ++ errorsOf attempts' :=
  List.filterMap_append

lemma definitionsOf_view (w : Window) (attempts : List Attempt) :
    definitionsOf (attempts.map w.attemptView) =
      (definitionsOf attempts).map (shiftDefinition w.shift) := by
  rw [definitionsOf, definitionsOf, List.filterMap_map, List.map_filterMap]
  congr 1
  funext attempt
  obtain ⟨start, stop, outcome⟩ := attempt
  cases outcome <;> rfl

lemma errorsOf_view (w : Window) (attempts : List Attempt) :
    errorsOf (attempts.map w.attemptView) = errorsOf attempts := by
  rw [errorsOf, errorsOf, List.filterMap_map]
  congr 1
  funext attempt
  obtain ⟨start, stop, outcome⟩ := attempt
  cases outcome <;> rfl

/-- When the window alone is read without an error, its definitions are read where it stands, and
reading goes on after it. -/
lemma Rounds.carry {attempts : List Attempt} {s' : ParserState}
    (h : Rounds w.inner s attempts s') (hclean : errorsOf attempts = []) (hst : Parallel w s t) :
    ∃ t', Parallel w s' t' ∧ s'.index = w.tokens.length ∧
      ∀ rest t'', Rounds w.whole t' rest t'' →
        Rounds w.whole t (attempts.map w.attemptView ++ rest) t'' := by
  induction h generalizing t with
  | done hend => exact ⟨t, hst, hend, fun _ _ hrest => hrest⟩
  | @read s s₁ s' first attempts hsize hrun _ ih =>
    obtain ⟨t₁, hrun', hst₁⟩ := hst.read hrun
    obtain ⟨t', hst', hend, hgo⟩ := ih hclean hst₁
    refine ⟨t', hst', hend, fun rest t'' hrest => ?_⟩
    have hsize' : t.index < w.whole.size := by
      have hlt : s.index < w.tokens.length := hsize
      rw [hst.index, Window.size_whole]
      omega
    have hround := Rounds.read hsize' hrun' (hgo rest t'' hrest)
    rw [hst.index, hst₁.index] at hround
    exact hround
  | failed => cases hclean

lemma Rounds.closed {tokens : List Token} {attempts : List Attempt} {s : ParserState}
    (h : Rounds tokens.toArray ParserState.initial attempts s) (hclean : errorsOf attempts = []) :
    ∀ token ∈ tokens.head?, startsDefinition token.kind = true := by
  intro token htoken
  rw [List.head?_eq_getElem?, Option.mem_def, ← List.getElem?_toArray] at htoken
  cases h with
  | done hend =>
    have hnone : tokens.toArray[0]? = none := Array.getElem?_eq_none (Nat.le_of_eq hend.symm)
    rw [hnone] at htoken
    cases htoken
  | read hsize hrun hrest =>
    obtain ⟨token', hget, hstarts⟩ := starts_of_read hrun
    cases htoken.symm.trans hget
    exact hstarts
  | failed => cases hclean

/-- The rounds of two programs, one after the other. -/
lemma Rounds.append {first second : List Token} {attempts attempts' : List Attempt}
    {s s' : ParserState} (h : Rounds first.toArray ParserState.initial attempts s)
    (hclean : errorsOf attempts = [])
    (h' : Rounds second.toArray ParserState.initial attempts' s')
    (hclean' : errorsOf attempts' = []) :
    ∃ both t, Rounds (first ++ second).toArray ParserState.initial both t ∧ errorsOf both = [] ∧
      definitionsOf both =
        definitionsOf attempts ++ (definitionsOf attempts').map (shiftDefinition s.nextId) ∧
      t.nextId = s.nextId + s'.nextId := by
  -- The first program is a window before the second, and the second is one at the end.
  let v : Window := ⟨[], first, second, 0, h'.closed hclean'⟩
  let w : Window := .last first second s.nextId
  have hstart : Parallel v ParserState.initial ParserState.initial := ⟨rfl, rfl, Nat.zero_le _⟩
  obtain ⟨t, ht, hend, hgo⟩ := Rounds.carry (w := v) h hclean hstart
  have hmiddle : Parallel w ParserState.initial t := by
    refine ⟨?_, ?_, Nat.zero_le _⟩
    · rw [ht.index, hend]
      exact Nat.zero_add _
    · rw [ht.nextId]
      exact (Nat.zero_add _).symm
  obtain ⟨t', ht', hend', hgo'⟩ := Rounds.carry (w := w) h' hclean' hmiddle
  have hdone : Rounds w.whole t' [] t' := by
    refine .done ?_
    rw [ht'.index, hend', Window.size_whole]
    rfl
  have hsecond := hgo' [] t' hdone
  rw [Window.whole_last] at hsecond
  refine ⟨_, t', hgo _ t' hsecond, ?_, ?_, ?_⟩
  · rw [errorsOf_append, errorsOf_append, errorsOf_view, errorsOf_view, hclean, hclean']
    rfl
  · have hzero : (definitionsOf attempts).map (shiftDefinition 0) = definitionsOf attempts :=
      map_eq_self fun d _ => shiftDefinition_zero d
    rw [definitionsOf_append, definitionsOf_append, definitionsOf_view, definitionsOf_view, hzero]
    exact congrArg _ (List.append_nil _)
  · rw [ht'.nextId]
    exact Nat.add_comm _ _

/-- A program after another is read with both together: the definitions of the first are followed
by those of the second with their numbers increased by the number of nodes of the first. -/
theorem parse_append (first second : List Token) (p q : Program)
    (hp : (parse first).program = some p) (hq : (parse second).program = some q) :
    (parse (first ++ second)).program =
      some ⟨p.definitions ++ q.definitions.map (shiftDefinition p.nodeCount),
        p.nodeCount + q.nodeCount⟩ := by
  obtain ⟨attempts, s, hrounds, hclean, rfl⟩ := rounds_of_program hp
  obtain ⟨attempts', s', hrounds', hclean', rfl⟩ := rounds_of_program hq
  obtain ⟨both, t, hboth, hcleanBoth, hdefinitions, hcount⟩ :=
    hrounds.append hclean hrounds' hclean'
  rw [hboth.parse, if_pos hcleanBoth, hdefinitions, hcount]

/-- The text is `type t = A | B let x = A`. -/
def choosingTokens : List Token :=
  [(.kwType, "type"), (.genid, "t"), (.equals, "="), (.conid, "A"), (.pipe, "|"), (.conid, "B"),
   (.kwLet, "let"), (.genid, "x"), (.equals, "="), (.conid, "A")].map fun w =>
    Token.made w.1 w.2 1 1

/-- The text is `let y = f x let z = let u = y in u`. -/
def applyingTokens : List Token :=
  [(.kwLet, "let"), (.genid, "y"), (.equals, "="), (.genid, "f"), (.genid, "x"),
   (.kwLet, "let"), (.genid, "z"), (.equals, "="), (.kwLet, "let"), (.genid, "u"), (.equals, "="),
   (.genid, "y"), (.kwIn, "in"), (.genid, "u")].map fun w => Token.made w.1 w.2 2 1

theorem parse_append_choosingTokens :
    ∃ p q, (parse choosingTokens).program = some p ∧ (parse applyingTokens).program = some q ∧
      p.nodeCount = 7 ∧ q.nodeCount = 11 ∧
      (parse (choosingTokens ++ applyingTokens)).program =
        some ⟨p.definitions ++ q.definitions.map (shiftDefinition 7), 18⟩ := by
  have hp : (parse choosingTokens).program.map Program.nodeCount = some 7 := by decide +kernel
  have hq : (parse applyingTokens).program.map Program.nodeCount = some 11 := by decide +kernel
  obtain ⟨p, hp, hcount⟩ := Option.map_eq_some_iff.mp hp
  obtain ⟨q, hq, hcount'⟩ := Option.map_eq_some_iff.mp hq
  have happend := parse_append choosingTokens applyingTokens p q hp hq
  rw [hcount, hcount'] at happend
  exact ⟨p, q, hp, hq, hcount, hcount', happend⟩

end Llama.Proofs
