import Llama.Proofs.BareTree
import Llama.Proofs.ScanSteps
import Llama.Proofs.Unparsing

/-!
# Reading constants and patterns

A literal is read as the constant to which its text decodes. What `patternWords` writes is read
back as the same pattern, up to sites.
-/

namespace Llama.Proofs

open Llama.Parser Llama.Grammar

variable {texts : LiteralTexts} {c : Const} {text : String} {d : Deeper} {p : Pattern}

lemma startsConstant_literalKind (c : Const) : startsConstant (literalKind c) = true := by
  cases c with
  | bool value => cases value <;> rfl
  | _ => rfl

lemma decodes_bool (value : Bool) (text : String) : Decodes text (.bool value) := by
  cases value <;> rfl

lemma reads_constant (h : Decodes text c) :
    Reads constant [(literalKind c, text)] (fun _ => True) (fun r => r.1 = c) := by
  unfold constant
  refine reads_read_bind fun e => ?_
  refine reads_startsWith_bind (startsConstant_literalKind c) ?_
  refine reads_advance_bind fun token htoken => ?_
  have hkind : token.kind = literalKind c := congrArg Prod.fst htoken
  have hvalue : token.value = text := congrArg Prod.snd htoken
  have hdecode : constantOf token.kind token.value = .ok c := by
    rw [hkind, hvalue]
    exact h
  simp only [hdecode]
  exact reads_pure rfl

/-- A literal is a pattern where the grammar lets its kind start one. -/
lemma reads_simplePattern_literal (h : Decodes text c) (hkind : literalKind c ≠ .stringLiteral) :
    Reads (simplePattern d) [(literalKind c, text)] (fun _ => True)
      (fun p => barePattern p = .const default c) := by
  have hconst : Reads (do let read ← constant; return .const (← newSite read.2) read.1)
      [(literalKind c, text)] (fun _ => True) (fun p => barePattern p = .const default c) := by
    refine reads_bind_last (reads_constant h) ?_
    rintro ⟨value, span⟩ rfl
    exact reads_newSite_bind fun _ => reads_pure rfl
  unfold simplePattern
  refine reads_peekKind_bind ?_
  cases c with
  | bool value => cases value <;> exact hconst
  | string value => exact absurd rfl hkind
  | unit => exact absurd rfl hkind
  | _ => exact hconst

lemma reads_signedConstant {literal : TokenKind} {negative : Bool} {w : Word}
    (h : constantOf literal (if negative then "-" ++ text else text) = .ok c) :
    Reads (signedConstant literal negative) [w, (literal, text)] (fun _ => True)
      (fun p => barePattern p = .const default c) := by
  unfold signedConstant
  refine reads_advance_bind fun _ _ => reads_read_bind fun sign => reads_read_bind fun e => ?_
  refine reads_expect_bind fun number hnumber => ?_
  have hvalue : number.value = text := congrArg Prod.snd hnumber
  rw [hvalue, h]
  exact reads_newSite_bind fun _ => reads_pure rfl

lemma reads_simplePattern_const (hw : patternConstWritable texts c) :
    Reads (simplePattern d) (patternConstWords texts c) (fun _ => True)
      (fun p => barePattern p = .const default c) := by
  cases c with
  | bool value =>
    refine reads_simplePattern_literal (decodes_bool value _) ?_
    cases value <;> decide
  | char value => exact reads_simplePattern_literal hw (by simp [literalKind])
  | int n =>
    rw [patternConstWritable] at hw
    rw [patternConstWords]
    by_cases hneg : n < 0
    · rw [if_pos hneg] at hw ⊢
      unfold simplePattern
      exact reads_peekKind_bind (reads_signedConstant hw)
    · rw [if_neg hneg] at hw ⊢
      exact reads_simplePattern_literal hw (by simp [literalKind])
  | float x =>
    rw [patternConstWritable] at hw
    rw [patternConstWords]
    by_cases hneg : floatNegative x = true
    · rw [if_pos hneg] at hw ⊢
      unfold simplePattern
      exact reads_peekKind_bind (reads_signedConstant hw)
    · rw [if_neg hneg] at hw ⊢
      exact reads_simplePattern_literal hw (by simp [literalKind])
  | string value => exact hw.elim
  | unit => exact hw.elim

lemma reads_simplePattern_atom (hatom : patternIsAtom p = true) (hw : patternWritable texts p) :
    Reads (simplePattern d) (patternWords texts p) (fun _ => True)
      (fun q => barePattern q = barePattern p) := by
  cases p with
  | constr site name args =>
    have hargs : args = [] := List.isEmpty_iff.mp hatom
    rw [hargs, patternWords, patternListWords, List.flatten_nil]
    unfold simplePattern
    refine reads_peekKind_bind (reads_conid_bind fun _ => ?_)
    exact reads_newSite_bind fun _ => reads_pure rfl
  | const site value =>
    rw [patternWritable] at hw
    rw [patternWords, barePattern]
    exact reads_simplePattern_const hw
  | var site name =>
    rw [patternWords]
    unfold simplePattern
    refine reads_peekKind_bind (reads_genid_bind fun _ => ?_)
    exact reads_newSite_bind fun _ => reads_pure rfl

lemma patternConstWords_first (hw : patternConstWritable texts c) :
    ∃ w ws, patternConstWords texts c = w :: ws ∧ startsSimplePattern w.1 = true ∧
      w.1 ≠ .conid := by
  cases c with
  | bool value => cases value <;> exact ⟨_, _, rfl, rfl, by decide⟩
  | char value => exact ⟨_, _, rfl, rfl, by simp [literalKind]⟩
  | int n =>
    rw [patternConstWords]
    by_cases hneg : n < 0
    · rw [if_pos hneg]
      exact ⟨_, _, rfl, rfl, by decide⟩
    · rw [if_neg hneg]
      exact ⟨_, _, rfl, rfl, by simp⟩
  | float x =>
    rw [patternConstWords]
    by_cases hneg : floatNegative x = true
    · rw [if_pos hneg]
      exact ⟨_, _, rfl, rfl, by decide⟩
    · rw [if_neg hneg]
      exact ⟨_, _, rfl, rfl, by simp⟩
  | string value => exact hw.elim
  | unit => exact hw.elim

/-- What stands as an argument starts with a word that the grammar takes for one. -/
lemma wrap_patternWords_first (hw : patternWritable texts p) :
    ∃ w ws, wrap (patternIsAtom p) (patternWords texts p) = w :: ws ∧
      startsSimplePattern w.1 = true := by
  cases hatom : patternIsAtom p with
  | false => exact ⟨_, _, rfl, rfl⟩
  | true =>
    cases p with
    | constr site name args => exact ⟨_, _, by rw [patternWords]; rfl, rfl⟩
    | const site value =>
      rw [patternWritable] at hw
      obtain ⟨w, ws, hwords, hstarts, -⟩ := patternConstWords_first hw
      exact ⟨w, ws, by rw [patternWords]; exact hwords, hstarts⟩
    | var site name => exact ⟨_, _, by rw [patternWords]; rfl, rfl⟩

/-- What follows a pattern is not one more argument. -/
def endsPattern (k : Option TokenKind) : Prop := k.any startsSimplePattern = false

/-- A pattern is read back, up to sites, at every level that has room for it. -/
def PatternReads (texts : LiteralTexts) (p : Pattern) : Prop :=
  patternWritable texts p → ∀ n, patternLevels p ≤ n →
    Reads (pattern (deeper n)) (patternWords texts p) endsPattern
      (fun q => barePattern q = barePattern p)

lemma reads_simplePattern {n : Nat} (h : PatternReads texts p) (hw : patternWritable texts p)
    (hn : wrapLevels (patternIsAtom p) (patternLevels p) ≤ n) :
    Reads (simplePattern (deeper n)) (wrap (patternIsAtom p) (patternWords texts p))
      (fun _ => True) (fun q => barePattern q = barePattern p) := by
  cases hatom : patternIsAtom p with
  | true => exact reads_simplePattern_atom hatom hw
  | false =>
    have hlevels := wrapLevels_le.mp hn hatom
    obtain ⟨m, rfl⟩ : ∃ m, n = m + 1 := ⟨n - 1, by omega⟩
    rw [simplePattern, deeper_succ]
    refine reads_peekKind_bind ?_
    exact reads_between (h hw m (by omega)) rfl

lemma patternReads_constr {site : Site} {name : String} {args : List Pattern}
    (ih : ∀ p ∈ args, PatternReads texts p) : PatternReads texts (.constr site name args) := by
  intro hw n hn
  rw [patternWritable, patternListWritable_iff] at hw
  rw [patternLevels, patternListLevels_le] at hn
  have hargs : Reads (many startsSimplePattern (simplePattern (deeper n)))
      (args.flatMap fun p => wrap (patternIsAtom p) (patternWords texts p)) endsPattern
      (fun qs => qs.map barePattern = args.map barePattern) := by
    refine reads_many (fun _ => True) args (fun p hp => ?_) (fun p hp => ?_)
      (fun k hk => ⟨trivial, hk⟩)
    · exact reads_simplePattern (ih p hp) (hw p hp) (hn p hp)
    · obtain ⟨w, ws, hwords, hstarts⟩ := wrap_patternWords_first (hw p hp)
      exact ⟨w, ws, hwords, hstarts, trivial⟩
  unfold pattern
  rw [patternWords, patternListWords_eq_map, ← List.flatMap_def]
  refine reads_isAt_bind (reads_conid_bind fun _ => ?_)
  refine reads_bind_last hargs (fun qs hqs => ?_)
  refine reads_newSiteFrom_bind fun _ => reads_pure ?_
  rw [barePattern, barePattern, barePatterns_eq_map, barePatterns_eq_map, hqs]

lemma patternReads_simple (hatom : patternIsAtom p = true)
    (hfirst : ∀ k, firstKind (patternWords texts p) k ≠ some .conid) : PatternReads texts p := by
  intro hw n _
  unfold pattern
  refine reads_isAt_other_bind (fun k _ => hfirst k) ?_
  exact (reads_simplePattern_atom hatom hw).mono (fun _ _ => trivial) fun _ hq => hq

/-- Every pattern that can be written is read back as itself, up to sites. -/
theorem patternReads_of_writable (p : Pattern) : PatternReads texts p := by
  have cases : PatternCases (PatternReads texts) :=
    { constr := fun site name args ih => patternReads_constr ih
      const := fun site value hw n hn => by
        obtain ⟨w, ws, hwords, -, hconid⟩ := patternConstWords_first (by
          rw [patternWritable] at hw
          exact hw)
        refine patternReads_simple rfl (fun k => ?_) hw n hn
        rw [patternWords, hwords]
        simpa [firstKind] using hconid
      var := fun site name => patternReads_simple rfl (fun k => by simp [patternWords, firstKind]) }
  exact cases.pattern p

lemma reads_deeper_pattern {n : Nat} (hw : patternWritable texts p) (hn : patternLevels p + 1 ≤ n) :
    Reads (deeper n).pattern (patternWords texts p) endsPattern
      (fun q => barePattern q = barePattern p) := by
  obtain ⟨m, rfl⟩ : ∃ m, n = m + 1 := ⟨n - 1, by omega⟩
  rw [deeper_succ]
  exact patternReads_of_writable p hw m (by omega)

end Llama.Proofs
