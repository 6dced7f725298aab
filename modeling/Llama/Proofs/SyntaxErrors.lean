import Llama.Proofs.Concatenation
import Llama.Proofs.NestingCounter

/-!
# Syntax errors and where reading goes on

`Failures tokens p s l` says at which positions parsers fail while `p` runs, whether `p` goes on
after that or not. The error that is kept is the furthest of them. Reading a program is a series
of attempts without gaps between them. Each goes the way it would go if the input began there, and
one that fails leaves one error behind, further into the input than all the errors before.
-/

namespace Llama.Proofs

open Llama.Parser Llama.Grammar

variable {α β : Type} {d : Deeper} {tokens : Array Token} {s s' : ParserState}
  {attempts : List Attempt} {p : Parser α} {e : SyntaxError}

/-- While the parser runs from the state, parsers fail at these positions, one after the other. When
a parser with a label fails, it fails once more with the label. -/
inductive Failures (tokens : Array Token) :
    ∀ {α : Type}, Parser α → ParserState → List Nat → Prop
  | pure {α : Type} (a : α) (s : ParserState) : Failures tokens (pure a) s []
  | read {α : Type} (f : Array Token → ParserState → α) (s : ParserState) :
      Failures tokens (read f) s []
  | advance (s : ParserState) : Failures tokens advance s []
  | freshId (s : ParserState) : Failures tokens freshId s []
  | enterTypes (group : TypeGroup) (s : ParserState) : Failures tokens (enterTypes group) s []
  | failWith {α : Type} (e : SyntaxError) (s : ParserState) :
      Failures tokens (failWith e : Parser α) s [e.index]
  | bind_ok {α β : Type} {p : Parser α} {f : α → Parser β} {s s' : ParserState} {a : α}
      {l l' : List Nat} (hrun : p tokens s = (.ok a, s')) (hp : Failures tokens p s l)
      (hf : Failures tokens (f a) s' l') : Failures tokens (p >>= f) s (l ++ l')
  | bind_error {α β : Type} {p : Parser α} {f : α → Parser β} {s s' : ParserState}
      {e : SyntaxError} {l : List Nat} (hrun : p tokens s = (.error e, s'))
      (hp : Failures tokens p s l) : Failures tokens (p >>= f) s l
  | label_ok {α : Type} {p : Parser α} {name : String} {s s' : ParserState} {a : α}
      {l : List Nat} (hrun : p tokens s = (.ok a, s')) (hp : Failures tokens p s l) :
      Failures tokens (label p name) s l
  | label_error {α : Type} {p : Parser α} {name : String} {s s' : ParserState}
      {e : SyntaxError} {l : List Nat} (hrun : p tokens s = (.error e, s'))
      (hp : Failures tokens p s l) : Failures tokens (label p name) s (l ++ [e.index])
  | optional {α : Type} {p : Parser α} {s : ParserState} {l : List Nat}
      (hp : Failures tokens p s l) : Failures tokens (optional p) s l

/-- The furthest of a position that is kept, if there is one, and some more. -/
def furthestOf (kept : Option Nat) (l : List Nat) : Option Nat :=
  l.foldl (fun kept i => some (max (kept.getD i) i)) kept

lemma furthestOf_append (kept : Option Nat) (l l' : List Nat) :
    furthestOf kept (l ++ l') = furthestOf (furthestOf kept l) l' := List.foldl_append

lemma furthestOf_some (i : Nat) (l : List Nat) : furthestOf (some i) l = some (l.foldl max i) := by
  induction l generalizing i with
  | nil => rfl
  | cons j l ih => exact ih (max i j)

lemma furthestOf_none (l : List Nat) : furthestOf none l = l.max? := by
  cases l with
  | nil => rfl
  | cons i l =>
    have hfirst : furthestOf none (i :: l) = furthestOf (some (max i i)) l := rfl
    rw [hfirst, Nat.max_self, furthestOf_some, List.max?_cons']

lemma failWith_furthest (e : SyntaxError) (tokens : Array Token) (s : ParserState) :
    ((failWith e : Parser α) tokens s).2.furthest.map SyntaxError.index =
      furthestOf (s.furthest.map SyntaxError.index) [e.index] :=
  congrArg some (index_furthest s.furthest e)

/-- What is kept in the end is the furthest of what was kept before and of where parsers failed. -/
theorem Failures.furthest {l : List Nat} (h : Failures tokens p s l) :
    (p tokens s).2.furthest.map SyntaxError.index =
      furthestOf (s.furthest.map SyntaxError.index) l := by
  induction h with
  | pure | read | freshId | enterTypes => rfl
  | advance s =>
    unfold Parser.advance
    split <;> rfl
  | failWith e s => exact failWith_furthest e tokens s
  | bind_ok hrun _ _ ihp ihf =>
    rw [hrun] at ihp
    rw [bind_run_ok hrun, ihf, ihp, furthestOf_append]
  | bind_error hrun _ ih =>
    rw [hrun] at ih
    rw [bind_run_error hrun, ih]
  | label_ok hrun _ ih =>
    rw [hrun] at ih
    rw [label_run_ok hrun, ih]
  | label_error hrun _ ih =>
    rw [hrun] at ih
    rw [label_run_error hrun, failWith_furthest, furthestOf_append, ← ih]
  | @optional _ p s l _ ih =>
    cases hrun : p tokens s with
    | mk result s' =>
      rw [hrun] at ih
      cases result with
      | ok a =>
        rw [optional_run_ok hrun]
        exact ih
      | error e =>
        rw [optional_run_error hrun]
        exact ih

lemma exists_failures_bind {f : α → Parser β} (hp : ∃ l, Failures tokens p s l)
    (hf : ∀ a s', ∃ l, Failures tokens (f a) s' l) : ∃ l, Failures tokens (p >>= f) s l := by
  obtain ⟨l, hp⟩ := hp
  cases hrun : p tokens s with
  | mk result s' =>
    cases result with
    | ok a =>
      obtain ⟨l', hf⟩ := hf a s'
      exact ⟨_, .bind_ok hrun hp hf⟩
    | error e => exact ⟨_, .bind_error hrun hp⟩

/-- Of every run that scans it can be said where parsers fail. -/
lemma Scans.exists_failures (hp : Scans anywhere p) : ∀ s, ∃ l, Failures tokens p s l := by
  induction hp with
  | pure a => exact fun s => ⟨_, .pure a s⟩
  | bind _ _ ihp ihf => exact fun s => exists_failures_bind (ihp s) ihf
  | read f => exact fun s => ⟨_, .read f s⟩
  | errorHere _ ih => exact fun s => exists_failures_bind ⟨_, .read _ s⟩ fun e => ih e trivial
  | failWith _ _ => exact fun s => ⟨_, .failWith _ s⟩
  | @label _ p name _ ih =>
    intro s
    obtain ⟨l, hp⟩ := ih s
    cases hrun : p tokens s with
    | mk result s' =>
      cases result with
      | ok a => exact ⟨_, .label_ok hrun hp⟩
      | error e => exact ⟨_, .label_error hrun hp⟩
  | optional _ ih =>
    intro s
    obtain ⟨l, hp⟩ := ih s
    exact ⟨_, .optional hp⟩
  | advance => exact fun s => ⟨_, .advance s⟩
  | freshId => exact fun s => ⟨_, .freshId s⟩

lemma exists_failures_definition (h : DeeperScans anywhere d) (tokens : Array Token)
    (s : ParserState) : ∃ l, Failures tokens (definition d) s l := by
  apply exists_failures_bind (scans_peekKind.exists_failures s)
  intro kind s
  split
  · apply exists_failures_bind _ fun _ s => ⟨_, .pure _ s⟩
    apply exists_failures_bind ((scans_expect _).exists_failures s)
    intro start s
    apply exists_failures_bind ((scans_separated _ (scans_typeDef h)).exists_failures s)
    intro defs s
    apply exists_failures_bind ((scans_newSiteFrom _).exists_failures s)
    intro site s
    exact exists_failures_bind ⟨_, .enterTypes _ s⟩ fun _ s => ⟨_, .pure _ s⟩
  · exact exists_failures_bind ((scans_letGroup h).exists_failures s) fun _ s => ⟨_, .pure _ s⟩
  · exact exists_failures_bind ⟨_, .read _ s⟩ fun _ s => ⟨_, .failWith _ s⟩

lemma startsDefinition_nextStart (tokens : Array Token) (index : Nat) :
    ∀ token ∈ tokens[nextStart tokens index]?, startsDefinition token.kind = true := by
  induction hleft : tokens.size - index using Nat.strongRecOn generalizing index with
  | ind left ih =>
    cases hget : tokens[index]? with
    | none =>
      have hself : nextStart tokens index = index :=
        nextStart_eq_self fun _ h => absurd (hget ▸ h) (Option.not_mem_none _)
      rw [hself, hget]
      exact fun _ h => absurd h (Option.not_mem_none _)
    | some token =>
      have hlt : index < tokens.size := (Array.getElem?_eq_some_iff.mp hget).1
      by_cases hstarts : startsDefinition token.kind = true
      · have hfirst : ∀ t ∈ tokens[index]?, startsDefinition t.kind = true := by
          intro t ht
          cases hget.symm.trans ht
          exact hstarts
        rw [nextStart_eq_self hfirst]
        exact hfirst
      · rw [nextStart_eq_succ hget (Bool.eq_false_iff.mpr hstarts)]
        exact ih _ (by omega) (index + 1) rfl

lemma errorsOf_cons_error (start stop : Nat) (e : SyntaxError) (attempts : List Attempt) :
    errorsOf (⟨start, stop, .error e⟩ :: attempts) = e :: errorsOf attempts := rfl

/-- The attempts follow each other without a gap. -/
def Tiles : Nat → List Attempt → Nat → Prop
  | start, [], stop => start = stop
  | start, attempt :: attempts, stop =>
    attempt.start = start ∧ start < attempt.stop ∧ Tiles attempt.stop attempts stop

lemma Rounds.tiles (h : Rounds tokens s attempts s') : Tiles s.index attempts tokens.size := by
  induction h with
  | done hend => exact hend
  | read hsize hrun _ ih => exact ⟨rfl, definition_read_lt hsize hrun, ih⟩
  | failed hsize hrun hkept _ ih =>
    have hblames := definition_failed_blames hsize hrun hkept
    exact ⟨rfl, (hblames.lt_nextStart hsize).1, ih⟩

lemma PlacedFrom.mono {start start' : Nat} (h : PlacedFrom tokens start' e) (hle : start ≤ start') :
    PlacedFrom tokens start e :=
  ⟨Nat.le_trans hle h.start_le, h.le_size, h.place⟩

lemma Rounds.placed (h : Rounds tokens s attempts s') :
    ∀ e ∈ errorsOf attempts, PlacedFrom tokens s.index e := by
  induction h with
  | done hend =>
    intro e he
    cases he
  | read hsize hrun _ ih =>
    intro e he
    exact (ih e he).mono (Nat.le_of_lt (definition_read_lt hsize hrun))
  | failed hsize hrun hkept _ ih =>
    have hblames := definition_failed_blames hsize hrun hkept
    intro e he
    rw [errorsOf_cons_error, List.mem_cons] at he
    obtain rfl | he := he
    · exact hblames.placed
    · exact (ih e he).mono (Nat.le_of_lt (hblames.lt_nextStart hsize).1)

/-- Where a definition starts, the errors that follow are further on. -/
lemma Rounds.behind (h : Rounds tokens s attempts s')
    (hstarts : ∀ token ∈ tokens[s.index]?, startsDefinition token.kind = true) :
    ∀ e ∈ errorsOf attempts, s.index < e.index := by
  cases h with
  | done hend =>
    intro e he
    cases he
  | read hsize hrun hrest =>
    intro e he
    exact Nat.lt_of_lt_of_le (definition_read_lt hsize hrun) (hrest.placed e he).start_le
  | failed hsize hrun hkept hrest =>
    have hblames := definition_failed_blames hsize hrun hkept
    intro e he
    rw [errorsOf_cons_error, List.mem_cons] at he
    obtain rfl | he := he
    · have hget : tokens[s.index]? = some tokens[s.index] := Array.getElem?_eq_getElem hsize
      exact hblames.behind _ hget (hstarts _ hget)
    · exact Nat.lt_of_lt_of_le (hblames.lt_nextStart hsize).1 (hrest.placed e he).start_le

/-- Each error is further into the input than the ones before. -/
lemma Rounds.increasing (h : Rounds tokens s attempts s') :
    (errorsOf attempts).Pairwise fun e e' => e.index < e'.index := by
  induction h with
  | done hend => exact .nil
  | read hsize hrun _ ih => exact ih
  | @failed s s₁ s' e e' attempts hsize hrun hkept hrest ih =>
    rw [errorsOf_cons_error]
    refine .cons (fun later hlater => ?_) ih
    -- Reading goes on at a token that starts a definition, and what fails from there on fails
    -- behind that token.
    have hnext := hrest.behind (startsDefinition_nextStart tokens _) later hlater
    have hle := le_nextStart tokens (max e.index (s.index + 1))
    have hindex : (resumed tokens s.index e s₁).index =
        nextStart tokens (max e.index (s.index + 1)) := rfl
    omega

/-! ### Every attempt is read as at the beginning -/

lemma index_noDefinitionAt (tokens : Array Token) (index : Nat) :
    (noDefinitionAt tokens index).index = index :=
  index_errorAt tokens index

/-- What comes of reading a definition from a state on is what comes of it at the beginning of the
rest of the input, with other numbers. -/
lemma definition_alone (tokens : List Token) (hlt : s.index < tokens.length)
    (hcleared : s.furthest = none) :
    (∃ alone s₀ s₁,
      definition outermost (tokens.drop s.index).toArray ParserState.initial = (.ok alone, s₀) ∧
      definition outermost tokens.toArray s = (.ok (shiftDefinition s.nextId alone), s₁) ∧
      s₁.index = s.index + s₀.index) ∨
    ∃ e₀ s₀ e s₁,
      definition outermost (tokens.drop s.index).toArray ParserState.initial = (.error e₀, s₀) ∧
      definition outermost tokens.toArray s = (.error e, s₁) ∧
      s₁.furthest.map SyntaxError.index = s₀.furthest.map fun e => s.index + e.index := by
  have hget : tokens.toArray[s.index]? = some tokens[s.index] := by
    rw [List.getElem?_toArray, List.getElem?_eq_getElem hlt]
  have hget₀ : (tokens.drop s.index).toArray[0]? = some tokens[s.index] := by
    rw [List.getElem?_toArray, List.getElem?_drop, Nat.add_zero, List.getElem?_eq_getElem hlt]
  by_cases hstarts : startsDefinition tokens[s.index].kind = true
  · let w : Window := .last (tokens.take s.index) (tokens.drop s.index) s.nextId
    have hwhole : w.whole = tokens.toArray := by
      rw [Window.whole_last, List.take_append_drop]
    have hbefore : w.before.length = s.index := List.length_take_of_le (Nat.le_of_lt hlt)
    have hstart : Parallel w ParserState.initial s :=
      ⟨hbefore.symm, (Nat.zero_add _).symm, Nat.zero_le _⟩
    have hcarries : CarriesAt w True (definition outermost) (definition outermost)
        (shiftDefinition s.nextId) ParserState.initial s :=
      hstart.definition (fun _ => rfl) rfl hcleared hget₀ hstarts
    cases hrun : definition outermost w.inner ParserState.initial with
    | mk result s₀ =>
      cases result with
      | ok alone =>
        obtain ⟨s₁, hrun', hst⟩ := hcarries.ok alone s₀ hrun
        rw [hwhole] at hrun'
        exact .inl ⟨alone, s₀, s₁, hrun, hrun', hbefore ▸ hst.index⟩
      | error e₀ =>
        obtain ⟨e, s₁, hrun', -, hst⟩ := hcarries.error trivial e₀ s₀ hrun
        rw [hwhole] at hrun'
        exact .inr ⟨e₀, s₀, e, s₁, hrun, hrun', hbefore ▸ hst.furthest⟩
  · have hother : startsDefinition tokens[s.index].kind = false := Bool.eq_false_iff.mpr hstarts
    have hfails := definition_fails (d := outermost) (s := s)
      (fun token h => by cases hget.symm.trans h; exact hother) hcleared
    have hfails₀ := definition_fails (d := outermost) (s := ParserState.initial)
      (fun token h => by cases hget₀.symm.trans h; exact hother) rfl
    refine .inr ⟨_, _, _, _, hfails₀, hfails, ?_⟩
    simp only [Option.map_some, index_noDefinitionAt]
    rfl

/-- What may become of an attempt. A definition that is read is the one that is read, but for the
numbers, when the input begins at its first token, where nothing is nested yet, and it ends at the
same token. A definition that fails also fails when the input begins there. Whatever the state in
which it is tried, if no error is kept then, its error is at the furthest position at which a
parser fails from then on. -/
inductive Settles (tokens : List Token) : Attempt → Prop
  | read {start count : Nat} {alone : Definition} {s : ParserState}
      (hrun : definition outermost (tokens.drop start).toArray ParserState.initial =
        (.ok alone, s)) :
      Settles tokens ⟨start, start + s.index, .ok (shiftDefinition count alone)⟩
  | failed {start : Nat} {e e₀ : SyntaxError} {s : ParserState}
      (hrun : definition outermost (tokens.drop start).toArray ParserState.initial =
        (.error e₀, s))
      (hfurthest : ∀ t : ParserState, t.index = start → t.furthest = none →
        (∃ l, Failures tokens.toArray (definition outermost) t l) ∧
          ∀ l, Failures tokens.toArray (definition outermost) t l → l.max? = some e.index) :
      Settles tokens ⟨start, nextStart tokens.toArray (max e.index (start + 1)), .error e⟩

lemma settles_read {tokens : List Token} (hlt : s.index < tokens.length) {first : Definition}
    {s₁ : ParserState}
    (hrun : definition outermost tokens.toArray { s with furthest := none } = (.ok first, s₁)) :
    Settles tokens ⟨s.index, s₁.index, .ok first⟩ := by
  rcases definition_alone (s := { s with furthest := none }) tokens hlt rfl with
    ⟨alone, s₀, s₂, halone, hrun', hindex⟩ | ⟨e₀, s₀, e, s₂, halone, hrun', -⟩
  · cases hrun.symm.trans hrun'
    rw [hindex]
    exact .read halone
  · cases hrun.symm.trans hrun'

lemma settles_failed {tokens : List Token} (hlt : s.index < tokens.length) {e' : SyntaxError}
    {s₁ : ParserState}
    (hrun : definition outermost tokens.toArray { s with furthest := none } = (.error e', s₁))
    (hkept : s₁.furthest = some e) :
    Settles tokens ⟨s.index, nextStart tokens.toArray (max e.index (s.index + 1)), .error e⟩ := by
  rcases definition_alone (s := { s with furthest := none }) tokens hlt rfl with
    ⟨alone, s₀, s₂, halone, hrun', -⟩ | ⟨e₀, s₀, e₂, s₂, halone, hrun', hindex⟩
  · cases hrun.symm.trans hrun'
  · cases hrun.symm.trans hrun'
    rw [hkept, Option.map_some] at hindex
    refine .failed halone fun t ht hcleared => ⟨exists_failures_definition outermost_scans _ t, ?_⟩
    intro l hfailures
    have hfurthest := hfailures.furthest
    rw [hcleared, Option.map_none, furthestOf_none] at hfurthest
    rw [← hfurthest]
    -- Both runs are compared with the one at the beginning of the input.
    rcases definition_alone (s := t) tokens (ht ▸ hlt) hcleared with
      ⟨alone, t₀, t₁, halone', -⟩ | ⟨e₁, t₀, e₃, t₁, halone', hagain, hindex'⟩
    · rw [ht] at halone'
      cases halone.symm.trans halone'
    · rw [ht] at halone' hindex'
      cases halone.symm.trans halone'
      rw [hagain, hindex', hindex]

lemma Rounds.settles {tokens : List Token} (h : Rounds tokens.toArray s attempts s') :
    ∀ attempt ∈ attempts, Settles tokens attempt := by
  induction h with
  | done hend =>
    intro attempt hmem
    cases hmem
  | read hsize hrun _ ih => exact List.forall_mem_cons.mpr ⟨settles_read hsize hrun, ih⟩
  | failed hsize hrun hkept _ ih =>
    exact List.forall_mem_cons.mpr ⟨settles_failed hsize hrun hkept, ih⟩

/-- The error is about the token at its position, or about the end of the input. -/
structure PointsInto (tokens : List Token) (e : SyntaxError) : Prop where
  le_length : e.index ≤ tokens.length
  found : e.found = tokens[e.index]?
  found_none : e.found = none ↔ e.index = tokens.length
  place : ∀ token ∈ e.found, e.line = token.line ∧ e.column = token.column

lemma PlacedFrom.pointsInto {tokens : List Token} {start : Nat}
    (h : PlacedFrom tokens.toArray start e) : PointsInto tokens e := by
  have hle : e.index ≤ tokens.length := h.le_size
  have hplace := h.place
  rcases Nat.lt_or_eq_of_le hle with hlt | hend
  · have hget : tokens.toArray[e.index]? = some tokens[e.index] := by
      rw [List.getElem?_toArray, List.getElem?_eq_getElem hlt]
    unfold errorAt at hplace
    rw [hget] at hplace
    have hfound : e.found = some tokens[e.index] := hplace.found
    refine ⟨hle, ?_, ?_, ?_⟩
    · rw [hfound, List.getElem?_eq_getElem hlt]
    · rw [hfound]
      exact ⟨fun hnone => absurd hnone (Option.some_ne_none _), fun hend => by omega⟩
    · intro token htoken
      cases hfound.symm.trans htoken
      exact ⟨hplace.line, hplace.column⟩
  · have hget : tokens.toArray[e.index]? = none := Array.getElem?_eq_none (Nat.le_of_eq hend.symm)
    have hat : (errorAt tokens.toArray e.index).found = none := by
      unfold errorAt
      rw [hget]
      dsimp only
      split <;> rfl
    have hfound : e.found = none := hplace.found.trans hat
    refine ⟨hle, ?_, ?_, ?_⟩
    · rw [hfound, List.getElem?_eq_none (Nat.le_of_eq hend.symm)]
    · exact ⟨fun _ => hend, fun _ => hfound⟩
    · intro token htoken
      cases hfound.symm.trans htoken

lemma outcomes_of_clean (hclean : errorsOf attempts = []) :
    attempts.map Attempt.outcome = (definitionsOf attempts).map Except.ok := by
  induction attempts with
  | nil => rfl
  | cons attempt attempts ih =>
    obtain ⟨start, stop, outcome⟩ := attempt
    cases outcome with
    | ok first => rw [List.map_cons, ih hclean, definitionsOf_cons_ok, List.map_cons]
    | error e => cases hclean

/-- Reading a program is a series of attempts at definitions that cover the tokens without a gap.
Every attempt goes the way it goes at the beginning of the input, whatever failed before it, and
begins with the nesting counter at zero. The syntax errors are one for each attempt that failed, at
the furthest position at which a parser failed in it; they are at increasing positions, and each is
about the token at its position. There is a program if and only if there is no syntax error, and
then every attempt is one of its definitions. -/
theorem parse_recovers (tokens : List Token) :
    ∃ attempts : List Attempt,
      Tiles 0 attempts tokens.length ∧
      (∀ attempt ∈ attempts, Settles tokens attempt) ∧
      CountsLevels tokens attempts ∧
      (parse tokens).syntaxErrors = errorsOf attempts ∧
      (errorsOf attempts).Pairwise (fun e e' => e.index < e'.index) ∧
      (∀ e ∈ errorsOf attempts, PointsInto tokens e) ∧
      ((parse tokens).program.isSome ↔ (parse tokens).syntaxErrors = []) ∧
      ∀ program ∈ (parse tokens).program,
        attempts.map Attempt.outcome = program.definitions.map Except.ok := by
  obtain ⟨attempts, s, hrounds⟩ := exists_rounds tokens.toArray ParserState.initial (Nat.zero_le _)
  have hparse := hrounds.parse
  have herrors : (parse tokens).syntaxErrors = errorsOf attempts := by
    rw [hparse]
    exact hrounds.reportedSyntax
  refine ⟨attempts, hrounds.tiles, hrounds.settles, hrounds.countsLevels, herrors,
    hrounds.increasing, fun e he => (hrounds.placed e he).pointsInto, ?_, ?_⟩
  · rw [herrors, hparse]
    dsimp only
    split
    next hclean => exact ⟨fun _ => hclean, fun _ => rfl⟩
    next hdirty =>
      exact ⟨fun hsome => absurd hsome Bool.false_ne_true, fun hclean => absurd hclean hdirty⟩
  · intro program hprogram
    rw [hparse, Option.mem_def] at hprogram
    dsimp only at hprogram
    split at hprogram
    next hclean =>
      cases hprogram
      exact outcomes_of_clean hclean
    next => cases hprogram

-- `let x = ) let y = 1 let = 2`: the definition between the two that fail is read.
example :
    let tokens := [(.kwLet, "let"), (.genid, "x"), (.equals, "="), (.rParen, ")"),
      (.kwLet, "let"), (.genid, "y"), (.equals, "="), (.intLiteral, "1"),
      (.kwLet, "let"), (.equals, "="), (.intLiteral, "2")].map fun w => Token.made w.1 w.2 1 1
    (parse tokens).syntaxErrors.map SyntaxError.index = [3, 9] := by
  decide +kernel

end Llama.Proofs
