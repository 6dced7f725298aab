import Llama.Compilation
import Llama.Proofs.Numbering

/-!
# Stopping when the program is read

The analysis of a source text leaves the program and the type table as reading has made them, and
its reports come after those of reading. It finds every type group entered, so that the problems
with type groups are the ones that were found when each group was entered for the first time.
-/

namespace Llama.Proofs

open Llama.Parser Llama.Grammar Analyzer

variable {tokens : Array Token} {s s' : ParserState} {attempts : List Attempt} {program : Program}

/-- The numbers of the type groups among definitions. -/
def groupIds (ds : List Definition) : List NodeId :=
  (typeGroupsOf ds).map fun group => group.site.id

lemma nextId_le_bind {α β : Type} {p : Parser α} {f : α → Parser β} (hp : Scans anywhere p)
    (hf : ∀ a, Still (f a)) (tokens : Array Token) (s : ParserState) :
    s.nextId ≤ ((p >>= f) tokens s).2.nextId :=
  bind_run_preserves (R := fun s s' => s.nextId ≤ s'.nextId) (fun _ _ _ => Nat.le_trans)
    (hp.nextId_le tokens s) fun a s' => Nat.le_of_eq (hf a tokens s').symm

/-- A definition draws numbers from the next one on, also if it fails. -/
lemma definition_nextId_le (tokens : Array Token) (s : ParserState) :
    s.nextId ≤ (definition outermost tokens s).2.nextId := by
  rcases definition_cases tokens s.index with ⟨token, hget, hkind⟩ | ⟨token, hget, hkind⟩ | hother
  · rw [definition_run_types hget hkind, bind_assoc]
    exact nextId_le_bind (scans_afterType outermost_scans token) (fun _ _ _ => rfl) tokens
      { s with index := s.index + 1 }
  · rw [definition_run_lets hget hkind]
    exact nextId_le_bind (scans_afterLet outermost_scans token) (fun _ => still_pure _) tokens
      { s with index := s.index + 1 }
  · rw [definition_run_refused hother]
    exact Nat.le_refl _

lemma mem_numbers_of_mem_groupIds {first : Definition} {id : NodeId} (h : id ∈ groupIds [first]) :
    id ∈ numbers first.nodes := by
  cases first with
  | lets group => cases h
  | types group =>
    rw [List.mem_singleton.mp h, Definition.nodes, TypeGroup.nodes, numbers_append]
    exact List.mem_append_right _ List.mem_cons_self

/-- A definition that is read draws the numbers of its type groups. -/
lemma groupIds_drawn {first : Definition} {s₁ : ParserState}
    (hrun : definition outermost tokens { s with furthest := none } = (.ok first, s₁))
    {id : NodeId} (hid : id ∈ groupIds [first]) : s.nextId ≤ id ∧ id < s₁.nextId := by
  have hdrawn : List.range s₁.nextId = List.range s.nextId ++ numbers first.nodes :=
    yields_definition (deeper_yields maxNesting) [] s.nextId tokens { s with furthest := none }
      first s₁ (List.append_nil _).symm hrun
  have hnodup : (List.range s.nextId ++ numbers first.nodes).Nodup := hdrawn ▸ List.nodup_range
  have hmem := mem_numbers_of_mem_groupIds hid
  constructor
  · by_contra hlt
    exact (List.nodup_append.mp hnodup).2.2 id (List.mem_range.mpr (Nat.lt_of_not_le hlt)) id hmem
      rfl
  · exact List.mem_range.mp (hdrawn ▸ List.mem_append_right _ hmem)

/-- The numbers of the type groups that are read from a state on increase from the next number. -/
lemma Rounds.groupIds_increase (h : Rounds tokens s attempts s') :
    s.nextId ≤ s'.nextId ∧ (∀ id ∈ groupIds (definitionsOf attempts), s.nextId ≤ id) ∧
      (groupIds (definitionsOf attempts)).Pairwise (· < ·) := by
  induction h with
  | done => exact ⟨Nat.le_refl _, fun _ h => absurd h List.not_mem_nil, .nil⟩
  | @read s s₁ s' first attempts hsize hrun _ ih =>
    obtain ⟨hle, hfrom, hincreasing⟩ := ih
    have hfirst : s.nextId ≤ s₁.nextId := by
      have hdrawn := definition_nextId_le tokens { s with furthest := none }
      rw [hrun] at hdrawn
      exact hdrawn
    have happend : groupIds (first :: definitionsOf attempts) =
        groupIds [first] ++ groupIds (definitionsOf attempts) := by
      rw [groupIds, typeGroupsOf_cons, List.map_append]
      rfl
    rw [definitionsOf_cons_ok, happend]
    refine ⟨Nat.le_trans hfirst hle, fun id hid => ?_, ?_⟩
    · rcases List.mem_append.mp hid with hid | hid
      · exact (groupIds_drawn hrun hid).1
      · exact Nat.le_trans hfirst (hfrom id hid)
    · refine List.pairwise_append.mpr ⟨?_, hincreasing, fun id hid id' hid' => ?_⟩
      · cases first with
        | lets => exact .nil
        | types => exact List.pairwise_singleton _ _
      · exact Nat.lt_of_lt_of_le (groupIds_drawn hrun hid).2 (hfrom id' hid')
  | @failed s s₁ s' e e' attempts hsize hrun hkept _ ih =>
    obtain ⟨hle, hfrom, hincreasing⟩ := ih
    have hfirst : s.nextId ≤ s₁.nextId := by
      have hdrawn := definition_nextId_le tokens { s with furthest := none }
      rw [hrun] at hdrawn
      exact hdrawn
    exact ⟨Nat.le_trans hfirst hle, fun id hid => Nat.le_trans hfirst (hfrom id hid), hincreasing⟩

/-! ### Reading with and without an analysis -/

/-- The definitions that can be read from tokens, also if there are syntax errors. -/
def readDefinitions (tokens : List Token) : List Definition :=
  (Parser.run (definitions outermost) tokens.toArray ParserState.initial).1.toOption.getD []

lemma Rounds.readDefinitions {tokens : List Token}
    (h : Rounds tokens.toArray ParserState.initial attempts s) :
    readDefinitions tokens = definitionsOf attempts := by
  have hrun : Parser.run (definitions outermost) tokens.toArray ParserState.initial =
      (.ok (definitionsOf attempts), s) := h.run (Nat.le_refl _)
  rw [Llama.Proofs.readDefinitions, hrun]
  rfl

lemma parse_definitions {tokens : List Token} (h : (parse tokens).program = some program) :
    program.definitions = readDefinitions tokens := by
  obtain ⟨attempts, s, hrounds, -, rfl⟩ := rounds_of_program h
  exact hrounds.readDefinitions.symm

/-- Each type group that can be read has a number of its own. -/
lemma nodup_groupIds (tokens : List Token) : (groupIds (readDefinitions tokens)).Nodup := by
  obtain ⟨attempts, s, hrounds⟩ := exists_rounds tokens.toArray ParserState.initial (Nat.zero_le _)
  rw [hrounds.readDefinitions]
  exact hrounds.groupIds_increase.2.2.imp Nat.ne_of_lt

/-- The reports of reading about type definitions are the problems that are found when the type
groups are entered one after the other. -/
lemma parse_typeDefinitions (tokens : List Token) :
    (parse tokens).reports.filter isTypeDefinition =
      (enterAll TypeTable.initial (typeGroupsOf (readDefinitions tokens))).2.map
        .badTypeDefinition := by
  obtain ⟨attempts, s, hrounds⟩ := exists_rounds tokens.toArray ParserState.initial (Nat.zero_le _)
  rw [hrounds.parse, hrounds.readDefinitions]
  exact hrounds.enteredAmong.reports

/-- Plain steps report no problem with the definition of a type. -/
lemma Plain.typeDefinitions {α : Type} {scoping : Bool} {m : Analyzer α} (hm : Plain scoping m)
    (w : Walk) : (m w).2.reports.toList.filter isTypeDefinition =
      w.reports.toList.filter isTypeDefinition := by
  -- A walk cannot be told apart from itself, and this stays true of what is kept here.
  have hkept : Congruent fun u v => u = v ∧
      v.reports.toList.filter isTypeDefinition = w.reports.toList.filter isTypeDefinition :=
    { inference := fun _ _ h => congrArg Walk.inference h.1
      infer := fun _ _ f h => ⟨by rw [h.1], h.2⟩
      report := fun u v r hr h => by
        refine ⟨by rw [h.1], ?_⟩
        have hother : isTypeDefinition r = false := by
          cases r with
          | badTypeDefinition e => exact absurd rfl (hr e)
          | _ => rfl
        simp [h.2, hother]
      valid := fun _ _ ty h => by rw [h.1]
      constructor := fun _ _ name h => by rw [h.1] }
  exact (hm.respects hkept w w ⟨rfl, rfl⟩).2.2

lemma typeGroup_run_entered {group : TypeGroup} {w : Walk}
    (h : group.site.id ∈ w.types.entered) :
    group.analyze w = ((), { w with passed := group.site.id :: w.passed }) := by
  rw [typeGroup_run, enter_of_entered h]
  simp

/-- A walk with a table in which all type groups are entered keeps it and reports no problem with
the definition of a type. -/
lemma elaborateDefinitions_keeps_types (ds : List Definition) (env : Env) (w : Walk)
    (hentered : ∀ id ∈ groupIds ds, id ∈ w.types.entered) :
    (elaborateDefinitions ds env w).2.types = w.types ∧
      (elaborateDefinitions ds env w).2.reports.toList.filter isTypeDefinition =
        w.reports.toList.filter isTypeDefinition := by
  induction ds generalizing env w with
  | nil => exact ⟨rfl, rfl⟩
  | cons d ds ih =>
    cases d with
    | lets group =>
      have hplain := plain_group (tree_plain.group group) env
      have htypes := (hplain.extends_run w).types
      have hrun : elaborateDefinitions (.lets group :: ds) env w =
          elaborateDefinitions ds ((elaborateGroup group env w).1 ++ env)
            (elaborateGroup group env w).2 := rfl
      obtain ⟨hkept, hreports⟩ := ih ((elaborateGroup group env w).1 ++ env)
        (elaborateGroup group env w).2 (htypes ▸ hentered)
      rw [hrun]
      exact ⟨hkept.trans htypes, hreports.trans (hplain.typeDefinitions w)⟩
    | types group =>
      have hrun : elaborateDefinitions (.types group :: ds) env w =
          elaborateDefinitions ds env (group.analyze w).2 := rfl
      rw [hrun, typeGroup_run_entered (hentered _ List.mem_cons_self)]
      exact ih env _ fun id hid => hentered id (List.mem_cons_of_mem _ hid)

/-- All groups that are entered are known to be. -/
lemma mem_entered_enterAll (groups : List TypeGroup) (table : TypeTable) :
    ∀ group ∈ groups, group.site.id ∈ (enterAll table groups).1.entered := by
  induction groups generalizing table with
  | nil => nofun
  | cons first groups ih =>
    intro group hgroup
    rcases List.mem_cons.mp hgroup with rfl | hgroup
    · obtain ⟨-, hids⟩ := gains_enter table group
      obtain ⟨-, hkept⟩ := gains_enterAll groups (table.enter group).1
      exact hkept _ ((hids _).mpr (.inl rfl))
    · exact ih (table.enter first).1 group hgroup

lemma parse_entered_ids {tokens : List Token} (h : (parse tokens).program = some program) :
    ∀ id ∈ groupIds program.definitions, id ∈ (parse tokens).types.entered := by
  rw [(parse_entered h).1]
  intro id hid
  obtain ⟨group, hgroup, rfl⟩ := List.mem_map.mp hid
  exact mem_entered_enterAll _ _ group hgroup

/-- The analysis of a program that was read keeps the type table and reports no problem with the
definition of a type. -/
lemma analyze_keeps_types {tokens : List Token} (h : (parse tokens).program = some program)
    (firstTag : Tag) (solver : Solver) :
    (program.analyze (parse tokens).types firstTag solver).2.1 = (parse tokens).types ∧
      (program.analyze (parse tokens).types firstTag solver).2.2.filter isTypeDefinition = [] := by
  obtain ⟨htypes, hreports⟩ := elaborateDefinitions_keeps_types program.definitions
    Library.symbols (Walk.initial (parse tokens).types firstTag) (parse_entered_ids h)
  rw [analyze_eq]
  refine ⟨htypes, ?_⟩
  rw [List.filter_append, (filter_semantic _).1, List.append_nil]
  exact hreports

lemma ofTokens_none {tokens : List Token} (h : (parse tokens).program = none) (parseOnly : Bool) :
    Compilation.ofTokens tokens parseOnly =
      ⟨none, none, (parse tokens).types, (parse tokens).reports⟩ := by
  rw [Compilation.ofTokens, h]

lemma ofTokens_read {tokens : List Token} (h : (parse tokens).program = some program) :
    Compilation.ofTokens tokens true =
      ⟨some program, none, (parse tokens).types, (parse tokens).reports⟩ := by
  rw [Compilation.ofTokens, h]
  rfl

lemma ofTokens_full {tokens : List Token} (h : (parse tokens).program = some program) :
    Compilation.ofTokens tokens false =
      let analyzed := program.analyze (parse tokens).types Inference.firstTag Solver.unsolved
      ⟨some program, some analyzed.1, (parse tokens).types,
        (parse tokens).reports ++ analyzed.2.2⟩ := by
  rw [Compilation.ofTokens, h]
  dsimp only
  rw [(analyze_keeps_types h Inference.firstTag Solver.unsolved).1]
  rfl

/-- An analysis never disturbs what reading has established: with and without it there are the same
program and type table, and the reports of reading come first. These hold the problems with the
type groups that can be read, each found when its group was entered, and none is reported after
them. -/
theorem compile_extends_reading (source : String) (fileName : String) (tokens : List Token)
    (h : Token.lex source = .ok tokens) :
    ∃ read full later, compile source ⟨fileName, true⟩ = .ok read ∧
      compile source ⟨fileName, false⟩ = .ok full ∧
      read.program = full.program ∧ read.types = full.types ∧
      full.reports = read.reports ++ later ∧ later.filter isTypeDefinition = [] ∧
      read.reports.filter isTypeDefinition =
        (enterAll TypeTable.initial (typeGroupsOf (readDefinitions tokens))).2.map
          .badTypeDefinition ∧
      (groupIds (readDefinitions tokens)).Nodup ∧
      ∀ program ∈ read.program, program.definitions = readDefinitions tokens := by
  have hcompile : ∀ parseOnly, compile source ⟨fileName, parseOnly⟩ =
      .ok (Compilation.ofTokens tokens parseOnly) := by
    intro parseOnly
    rw [compile, h]
  cases hprogram : (parse tokens).program with
  | none =>
    refine ⟨_, _, [], hcompile true, hcompile false, ?_⟩
    rw [ofTokens_none hprogram, ofTokens_none hprogram]
    exact ⟨rfl, rfl, (List.append_nil _).symm, rfl, parse_typeDefinitions tokens,
      nodup_groupIds tokens, fun _ h => absurd h (Option.not_mem_none _)⟩
  | some program =>
    refine ⟨_, _, (program.analyze (parse tokens).types Inference.firstTag Solver.unsolved).2.2,
      hcompile true, hcompile false, ?_⟩
    rw [ofTokens_read hprogram, ofTokens_full hprogram]
    refine ⟨rfl, rfl, rfl, (analyze_keeps_types hprogram _ _).2, parse_typeDefinitions tokens,
      nodup_groupIds tokens, fun other hother => ?_⟩
    cases hother
    exact parse_definitions hprogram

lemma eq_ok_of_toOption {ε α : Type} {result : Except ε α} {a : α} (h : result.toOption = some a) :
    result = .ok a := by
  cases result with
  | ok b => rw [Option.some.inj h]
  | error e => cases h

/-- The second type is refused, the argument of the first constructor is not defined, and neither
is the name `y`. -/
def clashingSource : String := "type t = A of u type t = B let x = y"

theorem compile_extends_clashingSource :
    ∃ tokens, Token.lex clashingSource = .ok tokens ∧
      (typeGroupsOf (readDefinitions tokens)).length = 2 ∧
      (enterAll TypeTable.initial (typeGroupsOf (readDefinitions tokens))).2.length = 2 ∧
      ∃ read full later, compile clashingSource ⟨"clash", true⟩ = .ok read ∧
        compile clashingSource ⟨"clash", false⟩ = .ok full ∧
        read.program = full.program ∧ read.types = full.types ∧
        full.reports = read.reports ++ later ∧ later.filter isTypeDefinition = [] ∧
        read.reports.filter isTypeDefinition =
          (enterAll TypeTable.initial (typeGroupsOf (readDefinitions tokens))).2.map
            .badTypeDefinition ∧
        (groupIds (readDefinitions tokens)).Nodup ∧
        ∀ program ∈ read.program, program.definitions = readDefinitions tokens := by
  have hlex : (Token.lex clashingSource).toOption.map (fun tokens =>
      let groups := typeGroupsOf (readDefinitions tokens)
      (groups.length, (enterAll TypeTable.initial groups).2.length)) = some (2, 2) := by
    decide +kernel
  obtain ⟨tokens, htokens, hlengths⟩ := Option.map_eq_some_iff.mp hlex
  obtain ⟨hgroups, herrors⟩ := Prod.ext_iff.mp hlengths
  have h : Token.lex clashingSource = .ok tokens := eq_ok_of_toOption htokens
  exact ⟨tokens, h, hgroups, herrors, compile_extends_reading clashingSource "clash" tokens h⟩

end Llama.Proofs
