import Llama.Proofs.TokenReading

/-!
# What parsers make

`MakesFrom tokens p P` says that whatever the parser `p` makes from the given tokens, wherever
among them it starts, satisfies `P`. There is one rule for each combinator, so that a production
of the grammar is followed step by step; steps that do not matter are skipped.
-/

namespace Llama.Proofs

open Llama.Parser

variable {α β : Type} {tokens : Array Token}

/-- Whatever a parser makes from the tokens satisfies `P`. -/
def MakesFrom (tokens : Array Token) (p : Parser α) (P : α → Prop) : Prop :=
  ∀ s s' a, p tokens s = (.ok a, s') → P a

variable {p : Parser α} {f : α → Parser β} {P : α → Prop} {Q : β → Prop}

lemma makesFrom_pure {a : α} (h : P a) : MakesFrom tokens (pure a) P := by
  intro s s' a' hrun
  cases hrun
  exact h

lemma makesFrom_bind (hp : MakesFrom tokens p P) (hf : ∀ a, P a → MakesFrom tokens (f a) Q) :
    MakesFrom tokens (p >>= f) Q := by
  intro s s' b hrun
  obtain ⟨a, s₁, hfirst, hrest⟩ := exists_of_bind_run hrun
  exact hf a (hp _ _ _ hfirst) _ _ _ hrest

/-- A step whose result does not matter. -/
lemma makesFrom_skip (hf : ∀ a, MakesFrom tokens (f a) Q) : MakesFrom tokens (p >>= f) Q := by
  intro s s' b hrun
  obtain ⟨a, s₁, -, hrest⟩ := exists_of_bind_run hrun
  exact hf a _ _ _ hrest

lemma makesFrom_ite {c : Prop} [Decidable c] {q : Parser α} (hp : MakesFrom tokens p P)
    (hq : MakesFrom tokens q P) : MakesFrom tokens (if c then p else q) P := by
  by_cases hc : c
  · rw [if_pos hc]
    exact hp
  · rw [if_neg hc]
    exact hq

lemma makesFrom_failWith (e : SyntaxError) : MakesFrom tokens (failWith e : Parser α) P := by
  intro s s' a hrun
  cases hrun

lemma makesFrom_unexpected (expected : String) :
    MakesFrom tokens (unexpected expected : Parser α) P :=
  makesFrom_skip fun _ => makesFrom_failWith _

lemma makesFrom_tooDeep : MakesFrom tokens (tooDeep : Parser α) P :=
  makesFrom_skip fun _ => makesFrom_failWith _

lemma makesFrom_pure_none :
    MakesFrom tokens (pure none : Parser (Option α)) fun o => ∀ a ∈ o, P a :=
  makesFrom_pure fun _ h => absurd h (Option.not_mem_none _)

lemma makesFrom_label (name : String) (hp : MakesFrom tokens p P) :
    MakesFrom tokens (label p name) P := by
  intro s s' a hrun
  exact hp _ _ _ (of_label_run hrun)

lemma makesFrom_optional (hp : MakesFrom tokens p P) :
    MakesFrom tokens (optional p) fun o => ∀ a ∈ o, P a := by
  intro s s' o hrun
  rcases cases_of_optional_run hrun with ⟨a, rfl, hfirst⟩ | ⟨e, s₁, rfl, -⟩
  · intro a' ha'
    cases ha'
    exact hp _ _ _ hfirst
  · exact fun _ h => absurd h (Option.not_mem_none _)

lemma makesFrom_many (starts : TokenKind → Bool) (hp : MakesFrom tokens p P) :
    MakesFrom tokens (many starts p) fun as => ∀ a ∈ as, P a := by
  refine makesFrom_skip fun count => ?_
  induction count with
  | zero => exact makesFrom_pure fun _ h => absurd h List.not_mem_nil
  | succ count ih =>
    refine makesFrom_skip fun _ => makesFrom_ite ?_
      (makesFrom_pure fun _ h => absurd h List.not_mem_nil)
    refine makesFrom_bind hp fun a ha => makesFrom_bind ih fun as has => makesFrom_pure ?_
    exact List.forall_mem_cons.mpr ⟨ha, has⟩

lemma makesFrom_separated (separator : TokenKind) (hp : MakesFrom tokens p P) :
    MakesFrom tokens (separated separator p) fun as => as ≠ [] ∧ ∀ a ∈ as, P a := by
  refine makesFrom_bind hp fun a ha =>
    makesFrom_bind (makesFrom_many _ (makesFrom_skip fun _ => hp)) fun as has => ?_
  exact makesFrom_pure ⟨List.cons_ne_nil _ _, List.forall_mem_cons.mpr ⟨ha, has⟩⟩

lemma makesFrom_between (opening closing : TokenKind) (hp : MakesFrom tokens p P) :
    MakesFrom tokens (between opening closing p) P :=
  makesFrom_skip fun _ => makesFrom_bind hp fun _ ha => makesFrom_skip fun _ => makesFrom_pure ha

/-- A parser takes only tokens that there are, and of a kind that it accepts. -/
lemma makesFrom_tokenWhere (accepts : TokenKind → Bool) (expected : String) :
    MakesFrom tokens (tokenWhere accepts expected)
      fun token => token ∈ tokens ∧ accepts token.kind = true := by
  have hpeek : MakesFrom tokens peek fun next => ∀ token ∈ next, token ∈ tokens := by
    intro s s' next hrun token htoken
    cases hrun
    exact Array.mem_of_getElem? htoken
  refine makesFrom_bind hpeek fun next hnext => ?_
  cases next with
  | none => exact makesFrom_unexpected _
  | some token =>
    by_cases haccepts : accepts token.kind = true
    · simp only [haccepts, if_true]
      exact makesFrom_skip fun _ => makesFrom_pure ⟨hnext token rfl, haccepts⟩
    · simp only [haccepts]
      exact makesFrom_unexpected _

end Llama.Proofs
