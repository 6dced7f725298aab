import Llama.Proofs.ProgramReading
import Llama.Proofs.ScanSteps
import Llama.Proofs.TypeEntries

/-!
# Rounds of reading

A program is read in rounds. A round tries to read a definition at the next token. If it can be
read, the next round begins after it; if not, the furthest error since the round began is reported
and the next round begins at the first token after it that starts a definition. `Rounds` relates a
state to the attempts that follow and to the state at the end of the input, and what `parse` gives
is put together from the attempts.
-/

namespace Llama.Proofs

open Llama.Parser Llama.Grammar

variable {α β : Type} {d : Deeper} {tokens : Array Token} {s s₁ : ParserState} {token : Token}
  {groups : List TypeGroup} {index : Nat} {e : SyntaxError} {program : Program}

def enterTree (group : TypeGroup) : Parser TypeGroup := do
  enterTypes group
  pure group

/-- The error where a definition should start. -/
def noDefinitionAt (tokens : Array Token) (index : Nat) : SyntaxError :=
  ((errorAt tokens index).expecting TokenKind.kwLet.description).expecting
    TokenKind.kwType.description

lemma definition_run_types (hget : tokens[s.index]? = some token) (hkind : token.kind = .kwType) :
    definition d tokens s =
      (afterType d token >>= enterTree >>= fun group => pure (.types group)) tokens
        { s with index := s.index + 1 } := by
  have hpeek : peekKind tokens s = (.ok (some .kwType), s) := by
    rw [← hkind, ← Option.map_some, ← hget]
    rfl
  have htree : typeGroup d = expect .kwType >>= fun token => afterType d token >>= enterTree := by
    simp only [typeGroup, afterType, bind_assoc, pure_bind]
    rfl
  rw [definition, bind_run_ok hpeek]
  dsimp only
  rw [htree, bind_assoc, bind_run_ok (expect_run hget hkind)]

lemma definition_run_lets (hget : tokens[s.index]? = some token) (hkind : token.kind = .kwLet) :
    definition d tokens s =
      (afterLet d token >>= fun group => pure (.lets group)) tokens
        { s with index := s.index + 1 } := by
  have hpeek : peekKind tokens s = (.ok (some .kwLet), s) := by
    rw [← hkind, ← Option.map_some, ← hget]
    rfl
  have htree : letGroup d = expect .kwLet >>= afterLet d := rfl
  rw [definition, bind_run_ok hpeek]
  dsimp only
  rw [htree, bind_assoc, bind_run_ok (expect_run hget hkind)]

lemma definition_run_refused (h : ∀ token ∈ tokens[s.index]?, startsDefinition token.kind = false) :
    definition d tokens s = failWith (noDefinitionAt tokens s.index) tokens s := by
  rw [definition, bind_run_ok (peekKind_run_index _ _)]
  have hother : ∀ kind, tokens[s.index]?.map Token.kind = some kind →
      startsDefinition kind = false := by
    rintro kind hkind
    obtain ⟨token, hget, rfl⟩ := Option.map_eq_some_iff.mp hkind
    exact h token hget
  generalize tokens[s.index]?.map Token.kind = next at hother ⊢
  split
  · cases hother _ rfl
  · cases hother _ rfl
  · rfl

/-- What comes of reading a definition is decided by its first token. -/
lemma definition_cases (tokens : Array Token) (index : Nat) :
    (∃ token, tokens[index]? = some token ∧ token.kind = .kwType) ∨
    (∃ token, tokens[index]? = some token ∧ token.kind = .kwLet) ∨
    (∀ token ∈ tokens[index]?, startsDefinition token.kind = false) := by
  cases hget : tokens[index]? with
  | none => exact .inr (.inr fun _ h => absurd h (Option.not_mem_none _))
  | some token =>
    by_cases htype : token.kind = .kwType
    · exact .inl ⟨token, rfl, htype⟩
    · by_cases hlet : token.kind = .kwLet
      · exact .inr (.inl ⟨token, rfl, hlet⟩)
      · refine .inr (.inr fun token' htoken => ?_)
        cases htoken
        unfold startsDefinition
        split
        next hkind => exact absurd hkind hlet
        next hkind => exact absurd hkind htype
        next => rfl

lemma Scans.bind_cases {p : Parser α} (hp : Scans anywhere p) (f : α → Parser β)
    (tokens : Array Token) (s : ParserState) :
    ∃ s', Kept s s' ∧
      ((∃ e, (p >>= f) tokens s = (.error e, s')) ∨ ∃ a, (p >>= f) tokens s = f a tokens s') := by
  have hkeeps := hp.keeps tokens s
  cases hrun : p tokens s with
  | mk result s' =>
    rw [hrun] at hkeeps
    cases result with
    | ok a => exact ⟨s', hkeeps, .inr ⟨a, bind_run_ok hrun⟩⟩
    | error e => exact ⟨s', hkeeps, .inl ⟨e, bind_run_error hrun⟩⟩

/-- From the first state reading has come to the second with some type groups, which are entered
and whose problems are reported, and is at the same depth. -/
structure Entered (s s' : ParserState) (groups : List TypeGroup) : Prop where
  types : s'.types = (enterAll s.types groups).1
  reports : s'.reports = s.reports ++ (enterAll s.types groups).2.map .badTypeDefinition
  depth : s'.depth = s.depth

lemma entered_nil {s' : ParserState} (h : Kept s s') : Entered s s' [] :=
  ⟨h.1, h.2.1.trans (List.append_nil _).symm, h.2.2⟩

lemma Entered.append {s' s'' : ParserState} {groups' : List TypeGroup} (h : Entered s s' groups)
    (h' : Entered s' s'' groups') : Entered s s'' (groups ++ groups') := by
  refine ⟨?_, ?_, h'.depth.trans h.depth⟩
  · rw [enterAll_append, ← h.types, h'.types]
  · rw [enterAll_append, h'.reports, h.reports, ← h.types, List.map_append, List.append_assoc]

/-- The type groups of what a definition was read as. -/
def groupsOfResult : Except SyntaxError Definition → List TypeGroup
  | .ok d => typeGroupsOf [d]
  | .error _ => []

lemma entered_enterTree (group : TypeGroup) (tokens : Array Token) (s : ParserState) :
    ∃ s', enterTree group tokens s = (.ok group, s') ∧ Entered s s' [group] := by
  refine ⟨_, rfl, rfl, ?_, rfl⟩
  simp [enterAll]

/-- Whatever definition is read or fails to be read, its type groups are entered. -/
lemma definition_entered (h : DeeperScans anywhere d) (tokens : Array Token) (s : ParserState) :
    Entered s (definition d tokens s).2 (groupsOfResult (definition d tokens s).1) := by
  rcases definition_cases tokens s.index with ⟨token, hget, hkind⟩ | ⟨token, hget, hkind⟩ | hother
  · rw [definition_run_types hget hkind, bind_assoc]
    obtain ⟨s', hkeeps, ⟨e, hrun⟩ | ⟨group, hrun⟩⟩ := (scans_afterType h token).bind_cases
      (fun group => enterTree group >>= fun group => pure (Definition.types group)) tokens
      { s with index := s.index + 1 }
    · rw [hrun]
      exact entered_nil hkeeps
    · obtain ⟨s'', hrun', hentered⟩ := entered_enterTree group tokens s'
      have hread : Entered s s' [] := entered_nil hkeeps
      rw [hrun, bind_run_ok hrun']
      exact hread.append hentered
  · rw [definition_run_lets hget hkind]
    obtain ⟨s', hkeeps, ⟨e, hrun⟩ | ⟨group, hrun⟩⟩ := (scans_afterLet h token).bind_cases
      (fun group => pure (Definition.lets group)) tokens { s with index := s.index + 1 }
    · rw [hrun]
      exact entered_nil hkeeps
    · rw [hrun]
      exact entered_nil hkeeps
  · rw [definition_run_refused hother]
    exact entered_nil ⟨rfl, rfl, rfl⟩

lemma Within.of_cleared {start : Nat} (hstart : start ≤ s.index) (hsize : s.index ≤ tokens.size)
    (hcleared : s.furthest = none) : Within tokens start s :=
  ⟨hstart, hsize, fun _ h => absurd (hcleared ▸ h) (Option.not_mem_none _)⟩

/-- A definition whose first token fits ends behind it, also if it fails. -/
lemma definition_endsBehind (h : ∀ {placed}, DeeperScans placed d)
    (hget : tokens[s.index]? = some token) (hstarts : startsDefinition token.kind = true)
    (hcleared : s.furthest = none) : EndsWithin tokens (s.index + 1) (definition d tokens s) := by
  have hsize : s.index < tokens.size := (Array.getElem?_eq_some_iff.mp hget).1
  have hwithin : Within tokens (s.index + 1) { s with index := s.index + 1 } :=
    .of_cleared (Nat.le_refl _) hsize hcleared
  rcases definition_cases tokens s.index with ⟨token, hget, hkind⟩ | ⟨token, hget, hkind⟩ | hother
  · rw [definition_run_types hget hkind]
    refine (((scans_afterType h token).endsWithin hwithin).bind fun group s' hs' => ?_).bind
      fun _ _ hs' => .done _ hs'
    exact .done _ ⟨hs'.start_le, hs'.le_size, hs'.furthest⟩
  · rw [definition_run_lets hget hkind]
    exact ((scans_afterLet h token).endsWithin hwithin).bind fun _ _ hs' => .done _ hs'
  · rw [hother token hget] at hstarts
    cases hstarts

/-- A definition whose first token does not fit fails there. -/
lemma definition_fails (hother : ∀ token ∈ tokens[s.index]?, startsDefinition token.kind = false)
    (hcleared : s.furthest = none) :
    definition d tokens s = (.error (noDefinitionAt tokens s.index),
      { s with furthest := some (noDefinitionAt tokens s.index) }) := by
  have hfail : ∀ e : SyntaxError, (failWith e : Parser Definition) tokens s =
      (.error e, { s with furthest := some (SyntaxError.furthest s.furthest e) }) := fun _ => rfl
  rw [definition_run_refused hother, hfail, hcleared]
  rfl

/-- What is known of the furthest error of a definition that fails. -/
structure Blames (tokens : Array Token) (start : Nat) (e : SyntaxError) : Prop where
  placed : PlacedFrom tokens start e
  behind : ∀ token ∈ tokens[start]?, startsDefinition token.kind = true → start < e.index

/-- A definition that is read takes tokens, and one that fails leaves an error. -/
lemma definition_ends (h : ∀ {placed}, DeeperScans placed d) (hsize : s.index < tokens.size)
    (hcleared : s.furthest = none) :
    (∃ first s', definition d tokens s = (.ok first, s') ∧ s.index < s'.index ∧
      s'.index ≤ tokens.size) ∨
    ∃ e e' s', definition d tokens s = (.error e, s') ∧ s'.furthest = some e' ∧
      Blames tokens s.index e' := by
  have hget : tokens[s.index]? = some tokens[s.index] := Array.getElem?_eq_getElem hsize
  by_cases hstarts : startsDefinition tokens[s.index].kind = true
  · have hend := definition_endsBehind h hget hstarts hcleared
    cases hrun : definition d tokens s with
    | mk result s' =>
      rw [hrun] at hend
      cases result with
      | ok first => exact .inl ⟨first, s', rfl, hend.within.start_le, hend.within.le_size⟩
      | error e =>
        obtain ⟨-, hkept⟩ := hend.error e rfl
        obtain ⟨e', he'⟩ := Option.isSome_iff_exists.mp hkept
        have hplaced := hend.within.furthest e' he'
        exact .inr ⟨e, e', s', rfl, he',
          ⟨Nat.le_of_succ_le hplaced.start_le, hplaced.le_size, hplaced.place⟩,
          fun _ _ _ => hplaced.start_le⟩
  · have hother : ∀ token ∈ tokens[s.index]?, startsDefinition token.kind = false := by
      intro token htoken
      rw [hget] at htoken
      cases htoken
      exact Bool.eq_false_iff.mpr hstarts
    refine .inr ⟨_, _, _, definition_fails hother hcleared, rfl, ?_, ?_⟩
    · have hwithin : Within tokens s.index s :=
        .of_cleared (Nat.le_refl _) (Nat.le_of_lt hsize) hcleared
      exact hwithin.errorAt.congr ⟨rfl, rfl, rfl, rfl⟩
    · intro token htoken hstart
      rw [hother token htoken] at hstart
      cases hstart

/-! ### Going on after an error -/

/-- The position of the first token from a position on that starts a definition. -/
def nextStart (tokens : Array Token) (index : Nat) : Nat :=
  index + ((tokens.toList.drop index).takeWhile fun token => !startsDefinition token.kind).length

/-- The state in which reading goes on after an error of a definition that began at `start`. -/
def resumed (tokens : Array Token) (start : Nat) (e : SyntaxError) (s : ParserState) :
    ParserState :=
  { s with
    index := nextStart tokens (max e.index (start + 1))
    furthest := none
    reports := s.reports ++ [.badSyntax e] }

lemma nextStart_eq_self (h : ∀ token ∈ tokens[index]?, startsDefinition token.kind = true) :
    nextStart tokens index = index := by
  have hnone : ((tokens.toList.drop index).takeWhile
      fun token => !startsDefinition token.kind) = [] := by
    rw [← Array.getElem?_toList] at h
    cases hdrop : tokens.toList.drop index with
    | nil => rfl
    | cons token later =>
      have hget : tokens.toList[index]? = some token := by
        rw [← List.head?_drop, hdrop]
        rfl
      rw [List.takeWhile_cons, h token hget]
      rfl
  rw [nextStart, hnone]
  rfl

lemma nextStart_eq_succ (hget : tokens[index]? = some token)
    (hother : startsDefinition token.kind = false) :
    nextStart tokens index = nextStart tokens (index + 1) := by
  rw [← Array.getElem?_toList] at hget
  obtain ⟨hlt, rfl⟩ := List.getElem?_eq_some_iff.mp hget
  rw [nextStart, nextStart, List.drop_eq_getElem_cons hlt, List.takeWhile_cons, hother,
    Bool.not_false, if_pos rfl, List.length_cons]
  omega

lemma le_nextStart (tokens : Array Token) (index : Nat) : index ≤ nextStart tokens index :=
  Nat.le_add_right _ _

lemma nextStart_le_size (h : index ≤ tokens.size) : nextStart tokens index ≤ tokens.size := by
  have hlength := (List.takeWhile_sublist (l := tokens.toList.drop index)
    fun token => !startsDefinition token.kind).length_le
  have hall : tokens.toList.length = tokens.size := Array.length_toList
  rw [List.length_drop] at hlength
  unfold nextStart
  omega

lemma skipUpTo_run (count : Nat) (hcount : tokens.size - s.index ≤ count) :
    skipUpTo count tokens s = (.ok (), { s with index := nextStart tokens s.index }) := by
  induction count generalizing s with
  | zero =>
    have hnone : tokens[s.index]? = none := Array.getElem?_eq_none (by omega)
    rw [nextStart_eq_self fun _ h => absurd (hnone ▸ h) (Option.not_mem_none _)]
    rfl
  | succ count ih =>
    rw [skipUpTo, bind_run_ok (peekKind_run_index _ _)]
    cases hget : tokens[s.index]? with
    | none =>
      rw [nextStart_eq_self fun _ h => absurd (hget ▸ h) (Option.not_mem_none _)]
      rfl
    | some token =>
      rw [Option.map_some]
      dsimp only
      by_cases hstarts : startsDefinition token.kind = true
      · rw [if_pos hstarts, nextStart_eq_self fun token' htoken => by
          rw [hget] at htoken
          cases htoken
          exact hstarts]
        rfl
      · have hadvance : advance tokens s =
            (.ok (some token), { s with index := s.index + 1 }) := by
          unfold advance
          rw [hget]
        rw [if_neg hstarts, bind_run_ok hadvance, ih (by dsimp only; omega),
          nextStart_eq_succ hget (Bool.eq_false_iff.mpr hstarts)]

/-- A kept error is reported, and reading goes on at the next definition after it. -/
lemma recover_run (hkept : s.furthest = some e) (start : Nat) (e' : SyntaxError) :
    recover start e' tokens s = (.ok (), resumed tokens start e s) := by
  have hread : read (fun _ s => s.furthest) tokens s = (.ok (some e), s) := by
    rw [← hkept]
    rfl
  have hcommit : commitFurthest tokens s = (.ok (some e.index),
      { s with furthest := none, reports := s.reports ++ [.badSyntax e] }) := by
    unfold commitFurthest
    rw [hkept]
  have hmove : ∀ index s, moveTo index tokens s = (.ok (), { s with index }) := fun _ _ => rfl
  rw [recover, bind_run_ok hread]
  change (commitFurthest >>= fun furthest => moveTo (max (furthest.getD start) (start + 1)) >>=
    fun _ => remaining >>= skipUpTo) tokens s = _
  rw [bind_run_ok hcommit, bind_run_ok (hmove _ _), bind_run_ok (remaining_run _ _),
    skipUpTo_run _ (Nat.le_refl _)]
  rfl

lemma definitionsUpTo_failed {e' : SyntaxError} (n : Nat) (hsize : s.index < tokens.size)
    (hrun : definition d tokens { s with furthest := none } = (.error e', s₁))
    (hkept : s₁.furthest = some e) :
    definitionsUpTo d (n + 1) tokens s =
      definitionsUpTo d n tokens (resumed tokens s.index e s₁) := by
  rw [definitionsUpTo_succ d n (by omega), hrun]
  exact bind_run_ok (recover_run hkept _ _)

/-- A definition that was tried: where its first token is, where reading went on afterwards, and
what it was read as or the error that was reported. -/
structure Attempt where
  start : Nat
  stop : Nat
  outcome : Except SyntaxError Definition

namespace Attempt

def definition? (attempt : Attempt) : Option Definition := attempt.outcome.toOption

def error? (attempt : Attempt) : Option SyntaxError :=
  match attempt.outcome with
  | .ok _ => none
  | .error e => some e

end Attempt

/-- The definitions among attempts. -/
def definitionsOf (attempts : List Attempt) : List Definition :=
  attempts.filterMap Attempt.definition?

/-- The errors among attempts. -/
def errorsOf (attempts : List Attempt) : List SyntaxError :=
  attempts.filterMap Attempt.error?

/-- The attempts from a state to the end of the input, and the state there. -/
inductive Rounds (tokens : Array Token) : ParserState → List Attempt → ParserState → Prop
  | done {s : ParserState} (hend : s.index = tokens.size) : Rounds tokens s [] s
  | read {s s₁ s' : ParserState} {first : Definition} {attempts : List Attempt}
      (hsize : s.index < tokens.size)
      (hrun : definition outermost tokens { s with furthest := none } = (.ok first, s₁))
      (hrest : Rounds tokens s₁ attempts s') :
      Rounds tokens s (⟨s.index, s₁.index, .ok first⟩ :: attempts) s'
  | failed {s s₁ s' : ParserState} {e e' : SyntaxError} {attempts : List Attempt}
      (hsize : s.index < tokens.size)
      (hrun : definition outermost tokens { s with furthest := none } = (.error e', s₁))
      (hkept : s₁.furthest = some e)
      (hrest : Rounds tokens (resumed tokens s.index e s₁) attempts s') :
      Rounds tokens s
        (⟨s.index, nextStart tokens (max e.index (s.index + 1)), .error e⟩ :: attempts) s'

variable {s s' : ParserState} {attempts : List Attempt}

/-- Whether a definition is read or fails, the next round begins further on. -/
lemma definition_run (hsize : s.index < tokens.size) :
    (∃ first s₁, definition outermost tokens { s with furthest := none } = (.ok first, s₁) ∧
      s.index < s₁.index ∧ s₁.index ≤ tokens.size) ∨
    ∃ e e' s₁, definition outermost tokens { s with furthest := none } = (.error e', s₁) ∧
      s₁.furthest = some e ∧ Blames tokens s.index e := by
  rcases definition_ends outermost_scans (s := { s with furthest := none }) hsize rfl with
    hread | ⟨e', e, s₁, hrun, hkept, hblames⟩
  · exact .inl hread
  · exact .inr ⟨e, e', s₁, hrun, hkept, hblames⟩

lemma definition_read_lt {first : Definition} (hsize : s.index < tokens.size)
    (hrun : definition outermost tokens { s with furthest := none } = (.ok first, s₁)) :
    s.index < s₁.index := by
  rcases definition_run hsize with ⟨first', s₂, hrun', hlt, -⟩ | ⟨e, e', s₂, hrun', -⟩
  · cases hrun.symm.trans hrun'
    exact hlt
  · cases hrun.symm.trans hrun'

lemma definition_failed_blames {e' : SyntaxError} (hsize : s.index < tokens.size)
    (hrun : definition outermost tokens { s with furthest := none } = (.error e', s₁))
    (hkept : s₁.furthest = some e) : Blames tokens s.index e := by
  rcases definition_run hsize with ⟨first', s₂, hrun', -⟩ | ⟨e₂, e', s₂, hrun', hkept', hblames⟩
  · cases hrun.symm.trans hrun'
  · cases hrun.symm.trans hrun'
    cases hkept.symm.trans hkept'
    exact hblames

lemma Blames.lt_nextStart {start : Nat} (h : Blames tokens start e) (hsize : start < tokens.size) :
    start < nextStart tokens (max e.index (start + 1)) ∧
      nextStart tokens (max e.index (start + 1)) ≤ tokens.size := by
  have hle := le_nextStart tokens (max e.index (start + 1))
  have hplaced := h.placed.le_size
  exact ⟨by omega, nextStart_le_size (by omega)⟩

/-- From every state there are rounds to the end of the input. -/
lemma exists_rounds (tokens : Array Token) (s : ParserState) (hsize : s.index ≤ tokens.size) :
    ∃ attempts s', Rounds tokens s attempts s' := by
  induction hleft : tokens.size - s.index using Nat.strongRecOn generalizing s with
  | ind left ih =>
    by_cases hend : s.index = tokens.size
    · exact ⟨[], s, .done hend⟩
    · have hlt : s.index < tokens.size := by omega
      rcases definition_run hlt with
        ⟨first, s₁, hrun, hmore, hle⟩ | ⟨e, e', s₁, hrun, hkept, hblames⟩
      · obtain ⟨attempts, s', hrest⟩ := ih _ (by omega) s₁ hle rfl
        exact ⟨_, s', .read hlt hrun hrest⟩
      · obtain ⟨hmore, hle⟩ := hblames.lt_nextStart hlt
        have hless : tokens.size - (resumed tokens s.index e s₁).index < left := by
          change tokens.size - nextStart tokens (max e.index (s.index + 1)) < left
          omega
        obtain ⟨attempts, s', hrest⟩ := ih _ hless (resumed tokens s.index e s₁) hle rfl
        exact ⟨_, s', .failed hlt hrun hkept hrest⟩

/-- Reading definitions goes through the rounds. The bound on their number is never reached, since
each round begins further on than the one before. -/
lemma Rounds.run (h : Rounds tokens s attempts s') {n : Nat} (hn : tokens.size - s.index ≤ n) :
    definitionsUpTo outermost n tokens s = (.ok (definitionsOf attempts), s') := by
  induction h generalizing n with
  | @done s hend =>
    cases n with
    | zero => rfl
    | succ n =>
      rw [definitionsUpTo, bind_run_ok (remaining_run _ _), if_pos (by omega)]
      rfl
  | @read s s₁ s' first attempts hsize hrun _ ih =>
    have hmore := definition_read_lt hsize hrun
    cases n with
    | zero => omega
    | succ n =>
      rw [definitionsUpTo_succ _ n (by omega), hrun]
      dsimp only
      rw [bind_run_ok (ih (by omega))]
      rfl
  | @failed s s₁ s' e e' attempts hsize hrun hkept _ ih =>
    obtain ⟨hmore, -⟩ := (definition_failed_blames hsize hrun hkept).lt_nextStart hsize
    cases n with
    | zero => omega
    | succ n =>
      have hless : tokens.size - (resumed tokens s.index e s₁).index ≤ n := by
        change tokens.size - nextStart tokens (max e.index (s.index + 1)) ≤ n
        omega
      rw [definitionsUpTo_failed n hsize hrun hkept, ih hless]
      rfl

/-- Whether a report is about the definition of a type. -/
def isTypeDefinition : Report → Bool
  | .badTypeDefinition _ => true
  | _ => false

lemma filter_typeDefinitions (errors : List TypeError) :
    (errors.map Report.badTypeDefinition).filter isTypeDefinition =
        errors.map Report.badTypeDefinition ∧
      ((errors.map Report.badTypeDefinition).filter fun r => !isTypeDefinition r) = [] := by
  constructor
  · simp [List.filter_eq_self, isTypeDefinition]
  · simp [isTypeDefinition]

lemma reportedSyntax_of_entered (h : Entered s s' groups) :
    reportedSyntax s' = reportedSyntax s := by
  have hnone : ((enterAll s.types groups).2.map Report.badTypeDefinition).filterMap
      Report.syntaxError? = [] := by
    rw [List.filterMap_map]
    exact List.filterMap_eq_nil_iff.mpr fun _ _ => rfl
  rw [reportedSyntax, h.reports, List.filterMap_append, hnone, List.append_nil]
  rfl

/-- The type groups are entered, and the reports about type definitions that were added are those
about them. Other reports may have been added besides. -/
structure EnteredAmong (s s' : ParserState) (groups : List TypeGroup) : Prop where
  types : s'.types = (enterAll s.types groups).1
  reports : s'.reports.filter isTypeDefinition =
    s.reports.filter isTypeDefinition ++ (enterAll s.types groups).2.map .badTypeDefinition

lemma Entered.among (h : Entered s s' groups) : EnteredAmong s s' groups := by
  refine ⟨h.types, ?_⟩
  rw [h.reports, List.filter_append, (filter_typeDefinitions _).1]

lemma EnteredAmong.append {s'' : ParserState} {groups' : List TypeGroup}
    (h : EnteredAmong s s' groups) (h' : EnteredAmong s' s'' groups') :
    EnteredAmong s s'' (groups ++ groups') := by
  refine ⟨?_, ?_⟩
  · rw [enterAll_append, ← h.types, h'.types]
  · rw [enterAll_append, h'.reports, h.reports, ← h.types, List.map_append, List.append_assoc]

lemma enteredAmong_resumed (start : Nat) (e : SyntaxError) :
    EnteredAmong s (resumed tokens start e s) [] := by
  refine ⟨rfl, ?_⟩
  change (s.reports ++ [Report.badSyntax e]).filter isTypeDefinition = _
  rw [List.filter_append]
  rfl

lemma entered_of_run {result : Except SyntaxError Definition}
    (hrun : definition outermost tokens { s with furthest := none } = (result, s₁)) :
    Entered s s₁ (groupsOfResult result) := by
  have hentered := definition_entered outermost_scans tokens { s with furthest := none }
  rw [hrun] at hentered
  exact ⟨hentered.types, hentered.reports, hentered.depth⟩

lemma typeGroupsOf_cons (first : Definition) (rest : List Definition) :
    typeGroupsOf (first :: rest) = typeGroupsOf [first] ++ typeGroupsOf rest :=
  List.filterMap_append (l := [first])

lemma definitionsOf_cons_ok (start stop : Nat) (first : Definition) (attempts : List Attempt) :
    definitionsOf (⟨start, stop, .ok first⟩ :: attempts) = first :: definitionsOf attempts := rfl

/-- The syntax errors that are reported on the way are those of the attempts. -/
lemma Rounds.reportedSyntax (h : Rounds tokens s attempts s') :
    reportedSyntax s' = reportedSyntax s ++ errorsOf attempts := by
  induction h with
  | done => exact (List.append_nil _).symm
  | read hsize hrun _ ih =>
    rw [ih, reportedSyntax_of_entered (entered_of_run hrun)]
    rfl
  | @failed s s₁ s' e e' attempts hsize hrun hkept _ ih =>
    have hresumed : Llama.Proofs.reportedSyntax (resumed tokens s.index e s₁) =
        Llama.Proofs.reportedSyntax s₁ ++ [e] := by
      unfold Llama.Proofs.reportedSyntax
      exact List.filterMap_append
    rw [ih, hresumed, reportedSyntax_of_entered (entered_of_run hrun), List.append_assoc]
    rfl

/-- The type groups that were read are entered, whatever errors there are. -/
lemma Rounds.enteredAmong (h : Rounds tokens s attempts s') :
    EnteredAmong s s' (typeGroupsOf (definitionsOf attempts)) := by
  induction h with
  | done => exact (entered_nil ⟨rfl, rfl, rfl⟩).among
  | read hsize hrun _ ih =>
    rw [definitionsOf_cons_ok, typeGroupsOf_cons]
    exact (entered_of_run hrun).among.append ih
  | failed hsize hrun hkept _ ih =>
    exact ((entered_of_run hrun).among.append (enteredAmong_resumed _ _)).append ih

/-- Without an error nothing but the problems with type groups is reported. -/
lemma Rounds.entered (h : Rounds tokens s attempts s') (hclean : errorsOf attempts = []) :
    Entered s s' (typeGroupsOf (definitionsOf attempts)) := by
  induction h with
  | done => exact entered_nil ⟨rfl, rfl, rfl⟩
  | read hsize hrun _ ih =>
    rw [definitionsOf_cons_ok, typeGroupsOf_cons]
    exact (entered_of_run hrun).append (ih hclean)
  | failed => cases hclean

/-- What is read from tokens is put together from the rounds. -/
lemma Rounds.parse {tokens : List Token}
    (h : Rounds tokens.toArray ParserState.initial attempts s) :
    parse tokens =
      ⟨if errorsOf attempts = [] then some ⟨definitionsOf attempts, s.nextId⟩ else none,
        s.types, s.reports⟩ := by
  have hrun : Parser.run (definitions outermost) tokens.toArray ParserState.initial =
      (.ok (definitionsOf attempts), s) := h.run (Nat.le_refl _)
  have herrors : errorsOf attempts = s.reports.filterMap Report.syntaxError? :=
    (h.reportedSyntax.trans (List.nil_append _)).symm
  have hclean : (s.reports.any fun r => r.syntaxError?.isSome) = true ↔ errorsOf attempts ≠ [] := by
    rw [herrors, Ne, List.filterMap_eq_nil_iff, List.any_eq_true]
    simp [Option.isSome_iff_ne_none]
  unfold Llama.parse
  rw [hrun]
  simp only [hclean]
  split <;> simp_all

lemma rounds_of_program {tokens : List Token} (h : (parse tokens).program = some program) :
    ∃ attempts s, Rounds tokens.toArray ParserState.initial attempts s ∧ errorsOf attempts = [] ∧
      program = ⟨definitionsOf attempts, s.nextId⟩ := by
  obtain ⟨attempts, s, hrounds⟩ := exists_rounds tokens.toArray ParserState.initial (Nat.zero_le _)
  rw [hrounds.parse] at h
  dsimp only at h
  split at h
  next hclean =>
    cases h
    exact ⟨attempts, s, hrounds, hclean, rfl⟩
  next => cases h

/-- A program comes of a run that reads its definitions and reports no syntax error. -/
lemma exists_run_of_parse {tokens : List Token} (h : (parse tokens).program = some program) :
    ∃ s, definitionsUpTo (deeper maxNesting) tokens.toArray.size tokens.toArray
        ParserState.initial = (.ok program.definitions, s) ∧ reportedSyntax s = [] ∧
      parse tokens = ⟨some program, s.types, s.reports⟩ ∧ program.nodeCount = s.nextId := by
  obtain ⟨attempts, s, hrounds, hclean, rfl⟩ := rounds_of_program h
  refine ⟨s, hrounds.run (Nat.le_refl _), ?_, ?_, rfl⟩
  · rw [hrounds.reportedSyntax, hclean]
    rfl
  · rw [hrounds.parse, if_pos hclean]

/-- A program that is read without a syntax error comes with the table of its type groups, and
what is reported are the problems with them. -/
lemma parse_entered {tokens : List Token} (h : (parse tokens).program = some program) :
    (parse tokens).types = (enterAll TypeTable.initial (typeGroupsOf program.definitions)).1 ∧
      (parse tokens).reports =
        (enterAll TypeTable.initial (typeGroupsOf program.definitions)).2.map
          .badTypeDefinition := by
  obtain ⟨attempts, s, hrounds, hclean, rfl⟩ := rounds_of_program h
  have hentered := hrounds.entered hclean
  rw [hrounds.parse]
  exact ⟨hentered.types, hentered.reports⟩

end Llama.Proofs
