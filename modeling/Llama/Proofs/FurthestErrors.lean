import Llama.Proofs.SyntaxErrors
import Mathlib.Data.List.Nodup
import Mathlib.Data.List.Perm.Basic

/-!
# The error that is kept

Errors are recorded one after the other, and one is kept. It sums up the errors that are furthest
into the input: it has the place of the first of them, the first note, and what they expect, each
once. An error that is further on takes the place of all that was gathered before. The parsers of
the grammar record no error that names an expectation twice, and so none is reported.
-/

namespace Llama.Proofs

open Llama.Parser Llama.Grammar

variable {α : Type} {d : Deeper} {tokens : Array Token} {s : ParserState}

/-- The second list has the members of the first one, each once, in the order in which they occur
there for the first time. -/
structure ListsOnce (all once : List String) : Prop where
  mem : ∀ what, what ∈ once ↔ what ∈ all
  nodup : once.Nodup
  inOrder : once.Pairwise fun a b => all.idxOf a < all.idxOf b

lemma listsOnce_self {l : List String} (h : l.Nodup) : ListsOnce l l := by
  refine ⟨fun _ => Iff.rfl, h, List.pairwise_iff_getElem.mpr fun i j hi hj hij => ?_⟩
  rwa [h.idxOf_getElem, h.idxOf_getElem]

lemma idxOf_append_left {all : List String} {what : String} (h : what ∈ all)
    (more : List String) : (all ++ more).idxOf what = all.idxOf what := by
  rw [List.idxOf_append, if_pos h]

section

variable {all once : List String}

/-- More that comes later does not change the order. -/
lemma ListsOnce.inOrder_append (h : ListsOnce all once) (more : List String) :
    once.Pairwise fun a b => (all ++ more).idxOf a < (all ++ more).idxOf b := by
  refine h.inOrder.imp_of_mem fun {a b} ha hb hlt => ?_
  rwa [idxOf_append_left ((h.mem a).mp ha), idxOf_append_left ((h.mem b).mp hb)]

lemma ListsOnce.add (h : ListsOnce all once) (what : String) :
    ListsOnce (all ++ [what]) (if once.contains what then once else once ++ [what]) := by
  by_cases hmem : what ∈ once
  · rw [if_pos (List.contains_iff_mem.mpr hmem)]
    refine ⟨fun a => ?_, h.nodup, h.inOrder_append _⟩
    rw [List.mem_append, ← h.mem, List.mem_singleton]
    exact ⟨.inl, fun ha => ha.elim (fun ha => ha) fun ha => ha ▸ hmem⟩
  · have hnew : what ∉ all := fun hall => hmem ((h.mem what).mpr hall)
    rw [if_neg (fun hcontains => hmem (List.contains_iff_mem.mp hcontains))]
    refine ⟨fun a => ?_, ?_, List.pairwise_append.mpr ⟨h.inOrder_append _, ?_, ?_⟩⟩
    · rw [List.mem_append, List.mem_append, h.mem]
    · exact List.nodup_append_comm.mp (List.nodup_cons.mpr ⟨hmem, h.nodup⟩)
    · exact List.pairwise_singleton _ _
    · intro a ha b hb
      obtain rfl := List.mem_singleton.mp hb
      have hall := (h.mem a).mp ha
      have hlt := List.idxOf_lt_length_of_mem hall
      rw [idxOf_append_left hall, List.idxOf_append, if_neg hnew]
      omega

lemma ListsOnce.merge (h : ListsOnce all once) (more : List String) :
    ListsOnce (all ++ more) (SyntaxError.mergeExpected once more) := by
  induction more generalizing all once with
  | nil =>
    rw [List.append_nil]
    exact h
  | cons what more ih =>
    rw [List.append_cons]
    exact ih (h.add what)

end

/-- The errors at a position, in the order in which they were recorded. -/
def errorsAt (index : Nat) (errors : List SyntaxError) : List SyntaxError :=
  errors.filter fun e => e.index == index

/-- The error sums up errors that were recorded one after the other. -/
structure Summarizes (errors : List SyntaxError) (kept : SyntaxError) : Prop where
  furthest : ∀ e ∈ errors, e.index ≤ kept.index
  /-- It is about the token and the place of the first error that far into the input. -/
  place : ∃ first, (errorsAt kept.index errors).head? = some first ∧ SamePlace kept first
  note : kept.note = (errorsAt kept.index errors).findSome? SyntaxError.note
  expected : ListsOnce ((errorsAt kept.index errors).flatMap SyntaxError.expected) kept.expected

section

variable {errors more : List SyntaxError} {kept e : SyntaxError}

lemma errorsAt_snoc_self : errorsAt e.index (errors ++ [e]) = errorsAt e.index errors ++ [e] := by
  simp [errorsAt]

lemma errorsAt_snoc_of_ne {index : Nat} (h : e.index ≠ index) :
    errorsAt index (errors ++ [e]) = errorsAt index errors := by
  simp [errorsAt, h]

lemma forall_le_snoc {index : Nat} (h : ∀ e ∈ errors, e.index ≤ index) (he : e.index ≤ index) :
    ∀ e' ∈ errors ++ [e], e'.index ≤ index := by
  intro e' he'
  rcases List.mem_append.mp he' with hold | hlast
  · exact h e' hold
  · rw [List.mem_singleton.mp hlast]
    exact he

/-- An error that is alone at its position, and further on than the others, sums up all. -/
lemma summarizes_alone (hle : ∀ e' ∈ errors, e'.index ≤ e.index)
    (halone : errorsAt e.index errors = [e]) (he : e.expected.Nodup) : Summarizes errors e where
  furthest := hle
  place := ⟨e, by rw [halone]; rfl, rfl, rfl, rfl, rfl⟩
  note := by rw [halone, List.findSome?_singleton]
  expected := by
    rw [halone, List.flatMap_singleton]
    exact listsOnce_self he

/-- One more error is passed over, joined to those at the same position, or takes their place. -/
lemma Summarizes.record (h : Summarizes errors kept) (he : e.expected.Nodup) :
    Summarizes (errors ++ [e]) (SyntaxError.furthest (some kept) e) := by
  unfold SyntaxError.furthest
  dsimp only
  rcases Nat.lt_trichotomy e.index kept.index with hlt | heq | hgt
  · have hat : errorsAt kept.index (errors ++ [e]) = errorsAt kept.index errors :=
      errorsAt_snoc_of_ne (Nat.ne_of_lt hlt)
    rw [if_pos hlt]
    refine ⟨forall_le_snoc h.furthest (Nat.le_of_lt hlt), ?_, ?_, ?_⟩ <;> rw [hat]
    exacts [h.place, h.note, h.expected]
  · have hat : errorsAt kept.index (errors ++ [e]) = errorsAt kept.index errors ++ [e] :=
      heq ▸ errorsAt_snoc_self
    obtain ⟨first, hfirst, hplace⟩ := h.place
    rw [if_neg (by omega), if_pos heq]
    refine ⟨forall_le_snoc h.furthest (Nat.le_of_eq heq), ⟨first, ?_, ?_⟩, ?_, ?_⟩
    · rw [hat, List.head?_append, hfirst, Option.some_or]
    · exact ⟨hplace.found, hplace.index, hplace.line, hplace.column⟩
    · rw [hat, List.findSome?_append, ← h.note, List.findSome?_singleton]
    · rw [hat, List.flatMap_append, List.flatMap_singleton]
      exact h.expected.merge e.expected
  · have hnone : errorsAt e.index errors = [] :=
      List.filter_eq_nil_iff.mpr fun e' he' => by
        have hle := h.furthest e' he'
        simp only [beq_iff_eq]
        omega
    rw [if_neg (by omega), if_neg (by omega)]
    refine summarizes_alone (forall_le_snoc (fun e' he' => ?_) (Nat.le_refl _)) ?_ he
    · exact Nat.le_trans (h.furthest e' he') (Nat.le_of_lt hgt)
    · rw [errorsAt_snoc_self, hnone, List.nil_append]

/-- What is kept after errors are recorded one after the other. -/
def keepAll (kept : Option SyntaxError) (errors : List SyntaxError) : Option SyntaxError :=
  errors.foldl (fun kept e => some (SyntaxError.furthest kept e)) kept

lemma Summarizes.recordAll (h : Summarizes errors kept) (hmore : ∀ e ∈ more, e.expected.Nodup) :
    ∃ kept', keepAll (some kept) more = some kept' ∧ Summarizes (errors ++ more) kept' := by
  induction more generalizing errors kept with
  | nil => exact ⟨kept, rfl, by rwa [List.append_nil]⟩
  | cons e more ih =>
    rw [List.forall_mem_cons] at hmore
    rw [List.append_cons]
    exact ih (h.record hmore.1) hmore.2

lemma exists_summary (hsome : errors ≠ []) (hdistinct : ∀ e ∈ errors, e.expected.Nodup) :
    ∃ kept, keepAll none errors = some kept ∧ Summarizes errors kept := by
  cases errors with
  | nil => exact absurd rfl hsome
  | cons e more =>
    rw [List.forall_mem_cons] at hdistinct
    have hfirst : Summarizes [e] e := by
      refine summarizes_alone (fun e' he' => ?_) ?_ hdistinct.1
      · exact Nat.le_of_eq (congrArg SyntaxError.index (List.mem_singleton.mp he'))
      · simp [errorsAt]
    exact hfirst.recordAll hdistinct.2

lemma Summarizes.exists_index (h : Summarizes errors kept) :
    ∃ e ∈ errors, e.index = kept.index := by
  obtain ⟨first, hfirst, hplace⟩ := h.place
  exact ⟨first, List.mem_of_mem_filter (List.mem_of_head? hfirst), hplace.index.symm⟩

/-- In whatever order the errors were recorded, the position and the expectations are the same. -/
lemma Summarizes.perm {others : List SyntaxError} {kept' : SyntaxError}
    (h : Summarizes errors kept) (h' : Summarizes others kept') (hperm : others.Perm errors) :
    kept'.index = kept.index ∧ kept'.expected.Perm kept.expected := by
  obtain ⟨e, he, hindex⟩ := h.exists_index
  obtain ⟨e', he', hindex'⟩ := h'.exists_index
  have hle := h.furthest e' (hperm.mem_iff.mp he')
  have hle' := h'.furthest e (hperm.mem_iff.mpr he)
  have heq : kept'.index = kept.index := by omega
  refine ⟨heq, (List.perm_ext_iff_of_nodup h'.expected.nodup h.expected.nodup).mpr fun what => ?_⟩
  have hall := (hperm.filter fun e => e.index == kept.index).flatMap_right SyntaxError.expected
  rw [h'.expected.mem, h.expected.mem, heq]
  exact hall.mem_iff

end

/-- Forgets the error that is kept and records errors one after the other. -/
def recordAfresh (errors : List SyntaxError) : Parser Unit := do
  clearFurthest
  errors.forM record

lemma forM_record_run (errors : List SyntaxError) (tokens : Array Token) (s : ParserState) :
    (errors.forM record : Parser Unit) tokens s =
      (.ok (), { s with furthest := keepAll s.furthest errors }) := by
  induction errors generalizing s with
  | nil => rfl
  | cons e errors ih => exact ih { s with furthest := some (SyntaxError.furthest s.furthest e) }

lemma recordAfresh_run (errors : List SyntaxError) (tokens : Array Token) (s : ParserState) :
    recordAfresh errors tokens s = (.ok (), { s with furthest := keepAll none errors }) :=
  forM_record_run errors tokens { s with furthest := none }

/-- Between two states, errors were recorded that name no expectation twice. -/
def Gathered (s s' : ParserState) : Prop :=
  ∃ errors, (∀ e ∈ errors, e.expected.Nodup) ∧ s'.furthest = keepAll s.furthest errors

lemma gathered_of_eq {s s' : ParserState} (h : s'.furthest = s.furthest) : Gathered s s' :=
  ⟨[], fun _ he => absurd he List.not_mem_nil, h⟩

lemma gathered_record {e : SyntaxError} (s : ParserState) (he : e.expected.Nodup) :
    Gathered s { s with furthest := some (SyntaxError.furthest s.furthest e) } :=
  ⟨[e], fun _ he' => List.mem_singleton.mp he' ▸ he, rfl⟩

lemma Gathered.trans {s₁ s₂ s₃ : ParserState} (h : Gathered s₁ s₂) (h' : Gathered s₂ s₃) :
    Gathered s₁ s₃ := by
  obtain ⟨errors, hdistinct, hkept⟩ := h
  obtain ⟨errors', hdistinct', hkept'⟩ := h'
  refine ⟨errors ++ errors', fun e he => ?_, ?_⟩
  · exact (List.mem_append.mp he).elim (hdistinct e) (hdistinct' e)
  · rw [hkept', hkept]
    exact List.foldl_append.symm

lemma expected_errorAt (tokens : Array Token) (index : Nat) :
    (errorAt tokens index).expected = [] := by
  unfold errorAt
  split
  · rfl
  · split <;> rfl

/-- Nothing is expected yet. -/
def Bare (e : SyntaxError) : Prop := e.expected = []

lemma Scans.gathered {p : Parser α} (hp : Scans Bare p) (tokens : Array Token) :
    ∀ s, Gathered s (p tokens s).2 := by
  refine hp.preserves (fun s => gathered_of_eq rfl) (fun _ _ _ => Gathered.trans)
    (fun s index => gathered_of_eq rfl) (fun s => gathered_of_eq rfl) (expected_errorAt tokens)
    fun s e he => gathered_record s ?_
  rcases he with ⟨e', hbare, hspecifies⟩ | ⟨name, hname⟩
  · exact hspecifies.distinct hbare
  · rw [hname]
    exact List.nodup_singleton name

lemma nodup_noDefinitionAt (tokens : Array Token) (index : Nat) :
    (noDefinitionAt tokens index).expected.Nodup := by
  have hexpected : (noDefinitionAt tokens index).expected =
      [] ++ [TokenKind.kwLet.description] ++ [TokenKind.kwType.description] :=
    congrArg (fun l => l ++ [TokenKind.kwLet.description] ++ [TokenKind.kwType.description])
      (expected_errorAt tokens index)
  rw [hexpected]
  decide

/-- Whatever becomes of a definition, the errors that it records name no expectation twice. -/
lemma definition_gathered (h : DeeperScans Bare d) (tokens : Array Token) (s : ParserState) :
    Gathered s (definition d tokens s).2 := by
  rcases definition_cases tokens s.index with ⟨token, hget, hkind⟩ | ⟨token, hget, hkind⟩ | hother
  · rw [definition_run_types hget hkind, bind_assoc]
    have hfirst := (scans_afterType h token).gathered tokens { s with index := s.index + 1 }
    exact bind_run_preserves (R := Gathered) (fun _ _ _ => Gathered.trans) hfirst
      fun _ _ => gathered_of_eq rfl
  · rw [definition_run_lets hget hkind]
    have hscans : Scans Bare (afterLet d token >>= fun group => pure (Definition.lets group)) :=
      .bind (scans_afterLet h token) fun _ => .pure _
    exact hscans.gathered tokens { s with index := s.index + 1 }
  · rw [definition_run_refused hother]
    exact gathered_record s (nodup_noDefinitionAt tokens s.index)

lemma Rounds.nodup_expected {s' : ParserState} {attempts : List Attempt}
    (h : Rounds tokens s attempts s') : ∀ e ∈ errorsOf attempts, e.expected.Nodup := by
  induction h with
  | done hend =>
    intro e he
    cases he
  | read hsize hrun _ ih => exact ih
  | @failed s s₁ s' e e' attempts hsize hrun hkept _ ih =>
    rw [errorsOf_cons_error, List.forall_mem_cons]
    refine ⟨?_, ih⟩
    obtain ⟨errors, hdistinct, hfurthest⟩ :=
      definition_gathered outermost_scans tokens { s with furthest := none }
    rw [hrun, hkept] at hfurthest
    have hsome : errors ≠ [] := by
      rintro rfl
      cases hfurthest
    obtain ⟨kept, hkeeps, hsummary⟩ := exists_summary hsome hdistinct
    cases hfurthest.trans hkeeps
    exact hsummary.expected.nodup

/-- The kept error is a summary. After errors were recorded one after the other, none of which names
an expectation twice, the error that is kept has the furthest position, the token and the place of
the first error there and the first note there, and its expectations are those of the errors there,
each once, in the order of their first occurrence. In any other order of the same errors the
position and the expectations are the same. All that a definition does to the kept error is to
record such errors, and no syntax error that is reported names an expectation twice. -/
theorem furthest_error_summarizes :
    (∀ errors : List SyntaxError, errors ≠ [] → (∀ e ∈ errors, e.expected.Nodup) →
      ∀ (tokens : Array Token) (s : ParserState), ∃ kept,
        recordAfresh errors tokens s = (.ok (), { s with furthest := some kept }) ∧
        Summarizes errors kept ∧
        ∀ others : List SyntaxError, others.Perm errors → ∃ kept',
          recordAfresh others tokens s = (.ok (), { s with furthest := some kept' }) ∧
          kept'.index = kept.index ∧ kept'.expected.Perm kept.expected) ∧
    (∀ (tokens : Array Token) (s : ParserState), ∃ errors : List SyntaxError,
      (∀ e ∈ errors, e.expected.Nodup) ∧
        (definition outermost tokens s).2.furthest =
          ((errors.forM record : Parser Unit) tokens s).2.furthest) ∧
    ∀ tokens : List Token, ∀ e ∈ (parse tokens).syntaxErrors, e.expected.Nodup := by
  refine ⟨fun errors hsome hdistinct tokens s => ?_, fun tokens s => ?_, fun tokens e he => ?_⟩
  · obtain ⟨kept, hkept, hsummary⟩ := exists_summary hsome hdistinct
    refine ⟨kept, by rw [recordAfresh_run, hkept], hsummary, fun others hperm => ?_⟩
    have hsome' : others ≠ [] := fun hnil => hsome (List.nil_perm.mp (hnil ▸ hperm))
    obtain ⟨kept', hkept', hsummary'⟩ :=
      exists_summary hsome' fun e he => hdistinct e (hperm.mem_iff.mp he)
    exact ⟨kept', by rw [recordAfresh_run, hkept'], hsummary.perm hsummary' hperm⟩
  · obtain ⟨errors, hdistinct, hkept⟩ := definition_gathered outermost_scans tokens s
    exact ⟨errors, hdistinct, by rw [forM_record_run, hkept]⟩
  · obtain ⟨attempts, s, hrounds⟩ :=
      exists_rounds tokens.toArray ParserState.initial (Nat.zero_le _)
    have herrors : (parse tokens).syntaxErrors = errorsOf attempts := by
      rw [hrounds.parse]
      exact hrounds.reportedSyntax
    exact hrounds.nodup_expected e (herrors ▸ he)

/-- Errors at three positions, not in order, with a note and an expectation that come twice. -/
def scatteredErrors : List SyntaxError :=
  [⟨none, ["')'", "'('"], some "before", 1, 1, 3⟩,
    ⟨none, ["'in'", "')'"], none, 4, 2, 1⟩,
    ⟨none, ["'and'"], some "passed over", 3, 1, 9⟩,
    ⟨none, ["')'", "';'"], some "first", 4, 2, 1⟩,
    ⟨none, ["'in'"], some "second", 4, 2, 1⟩]

theorem furthest_error_summarizes_scattered :
    scatteredErrors ≠ [] ∧ (∀ e ∈ scatteredErrors, e.expected.Nodup) ∧
      Summarizes scatteredErrors ⟨none, ["'in'", "')'", "';'"], some "first", 4, 2, 1⟩ := by
  have hsome : scatteredErrors ≠ [] := by decide
  have hdistinct : ∀ e ∈ scatteredErrors, e.expected.Nodup := by
    simp [scatteredErrors]
  refine ⟨hsome, hdistinct, ?_⟩
  obtain ⟨kept, hrun, hsummary, -⟩ :=
    furthest_error_summarizes.1 scatteredErrors hsome hdistinct #[] ParserState.initial
  have hkept : some kept = some ⟨none, ["'in'", "')'", "';'"], some "first", 4, 2, 1⟩ := by
    rw [recordAfresh_run] at hrun
    have hfurthest : keepAll none scatteredErrors = some kept :=
      congrArg (fun r => r.2.furthest) hrun
    rw [← hfurthest]
    decide
  cases hkept
  exact hsummary

end Llama.Proofs
