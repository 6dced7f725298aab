import Llama.Proofs.TokenWindows

/-!
# Types further on

A type is read from some tokens alone as it is read where they stand after other tokens. The result
is the same. If it fails, it fails at the same token, and so the furthest error is further on by the
tokens before, provided that no error is kept from beyond them.
-/

namespace Llama.Proofs

open Llama.Parser Llama.Grammar

variable {α β : Type} {before ts : List Token} {s t : ParserState} {d : Deeper}

/-- Reading from the tokens alone and reading after `n` other tokens have come equally far. -/
structure Beside (n : Nat) (s t : ParserState) : Prop where
  index : t.index = n + s.index
  fresh : s.furthest = none → ∀ e ∈ t.furthest, e.index ≤ n
  furthest : ∀ e ∈ s.furthest, t.furthest.map SyntaxError.index = some (n + e.index)

/-- The results are the same, or the errors are at the same token. -/
def Agree (n : Nat) : Except SyntaxError α → Except SyntaxError α → Prop
  | .ok a, .ok a' => a' = a
  | .error e, .error e' => e'.index = n + e.index
  | _, _ => False

/-- The parser does the same with the tokens `ts` alone and with `ts` after the tokens `before`. -/
def Shifts (before ts : List Token) (p : Parser α) : Prop :=
  ∀ s t, Beside before.length s t →
    Beside before.length (p ts.toArray s).2 (p (before ++ ts).toArray t).2 ∧
      Agree before.length (p ts.toArray s).1 (p (before ++ ts).toArray t).1

lemma getElem?_beside (h : Beside before.length s t) :
    (before ++ ts).toArray[t.index]? = ts.toArray[s.index]? := by
  rw [List.getElem?_toArray, List.getElem?_toArray, h.index,
    List.getElem?_append_right (Nat.le_add_right _ _), Nat.add_sub_cancel_left]

lemma Beside.record {n : Nat} {e e' : SyntaxError} (h : Beside n s t)
    (he : e'.index = n + e.index) :
    Beside n { s with furthest := some (SyntaxError.furthest s.furthest e) }
      { t with furthest := some (SyntaxError.furthest t.furthest e') } where
  index := h.index
  fresh hnone := by cases hnone
  furthest k hk := by
    cases hk
    simp only [Option.map_some, index_furthest, he, Option.some.injEq]
    cases hs : s.furthest with
    | none =>
      have hkept : (t.furthest.map SyntaxError.index).getD (n + e.index) ≤ n + e.index := by
        cases ht : t.furthest with
        | none => exact Nat.le_refl _
        | some k => exact Nat.le_add_right_of_le (h.fresh hs k ht)
      simp only [Option.map_none, Option.getD_none, Nat.max_self, Nat.max_eq_right hkept]
    | some k =>
      simp only [h.furthest k hs, Option.map_some, Option.getD_some, Nat.add_max_add_left]

variable {p : Parser α} {f : α → Parser β}

/-- Both succeed with one result, or both fail at one token. -/
lemma Shifts.runs (hp : Shifts before ts p) (h : Beside before.length s t) :
    (∃ a s' t', p ts.toArray s = (.ok a, s') ∧ p (before ++ ts).toArray t = (.ok a, t') ∧
      Beside before.length s' t') ∨
    ∃ e e' s' t', p ts.toArray s = (.error e, s') ∧ p (before ++ ts).toArray t = (.error e', t') ∧
      e'.index = before.length + e.index ∧ Beside before.length s' t' := by
  obtain ⟨hbeside, hagree⟩ := hp s t h
  generalize p ts.toArray s = run at hbeside hagree ⊢
  generalize p (before ++ ts).toArray t = run' at hbeside hagree ⊢
  obtain ⟨r | r, s'⟩ := run <;> obtain ⟨r' | r', t'⟩ := run'
  · exact .inr ⟨r, r', s', t', rfl, rfl, hagree, hbeside⟩
  · exact hagree.elim
  · exact hagree.elim
  · obtain rfl : r' = r := hagree
    exact .inl ⟨r', s', t', rfl, rfl, hbeside⟩

lemma shifts_pure (a : α) : Shifts before ts (pure a) := fun _ _ h => ⟨h, rfl⟩

lemma shifts_bind (hp : Shifts before ts p) (hf : ∀ a, Shifts before ts (f a)) :
    Shifts before ts (p >>= f) := by
  intro s t h
  obtain ⟨a, s', t', hrun, hrun', h'⟩ | ⟨e, e', s', t', hrun, hrun', he, h'⟩ := hp.runs h
  · rw [bind_run_ok hrun, bind_run_ok hrun']
    exact hf a s' t' h'
  · rw [bind_run_error hrun, bind_run_error hrun']
    exact ⟨h', he⟩

lemma shifts_ite {c : Prop} [Decidable c] {q : Parser α} (hp : Shifts before ts p)
    (hq : Shifts before ts q) : Shifts before ts (if c then p else q) := by
  by_cases hc : c
  · rwa [if_pos hc]
  · rwa [if_neg hc]

/-- What is read off the next token is the same. -/
lemma shifts_peek : Shifts before ts peek := fun _ _ h => ⟨h, getElem?_beside h⟩

lemma shifts_peekKind : Shifts before ts peekKind :=
  fun _ _ h => ⟨h, congrArg (Option.map Token.kind) (getElem?_beside h)⟩

lemma shifts_isAt (kind : TokenKind) : Shifts before ts (isAt kind) :=
  shifts_bind shifts_peekKind fun _ => shifts_pure _

lemma shifts_remaining : Shifts before ts remaining := by
  intro s t h
  refine ⟨h, ?_⟩
  show (before ++ ts).toArray.size - t.index = ts.toArray.size - s.index
  rw [h.index, List.size_toArray, List.size_toArray, List.length_append, Nat.add_sub_add_left]

lemma shifts_advance : Shifts before ts advance := by
  intro s t h
  unfold advance
  rw [getElem?_beside h]
  cases ts.toArray[s.index]? with
  | none => exact ⟨h, rfl⟩
  | some token => exact ⟨⟨congrArg (· + 1) h.index, h.fresh, h.furthest⟩, rfl⟩

/-- Failing at the next token, whatever is said about it. -/
lemma shifts_failHere {view : SyntaxError → SyntaxError} (hview : ∀ e, (view e).index = e.index) :
    Shifts before ts (errorHere >>= fun e => (failWith (view e) : Parser α)) := by
  intro s t h
  have hindex : (view (errorAt (before ++ ts).toArray t.index)).index =
      before.length + (view (errorAt ts.toArray s.index)).index := by
    rw [hview, hview, index_errorAt, index_errorAt, h.index]
  exact ⟨h.record hindex, hindex⟩

lemma shifts_unexpected (expected : String) :
    Shifts before ts (unexpected expected : Parser α) :=
  shifts_failHere fun _ => rfl

lemma shifts_tooDeep : Shifts before ts (tooDeep : Parser α) := shifts_failHere fun _ => rfl

lemma shifts_label (name : String) (hp : Shifts before ts p) : Shifts before ts (label p name) := by
  intro s t h
  obtain ⟨a, s', t', hrun, hrun', h'⟩ | ⟨e, e', s', t', hrun, hrun', he, h'⟩ := hp.runs h
  · rw [label_run_ok hrun, label_run_ok hrun']
    exact ⟨h', rfl⟩
  · rw [label_run_error hrun, label_run_error hrun']
    exact ⟨h'.record he, he⟩

lemma shifts_tokenWhere (accepts : TokenKind → Bool) (expected : String) :
    Shifts before ts (tokenWhere accepts expected) := by
  refine shifts_bind shifts_peek fun next => ?_
  cases next with
  | none => exact shifts_unexpected _
  | some token =>
    refine shifts_ite ?_ (shifts_unexpected _)
    exact shifts_bind shifts_advance fun _ => shifts_pure _

lemma shifts_expect (kind : TokenKind) : Shifts before ts (expect kind) := shifts_tokenWhere _ _

lemma shifts_genid : Shifts before ts genid :=
  shifts_bind (shifts_label _ (shifts_expect _)) fun _ => shifts_pure _

lemma shifts_many (starts : TokenKind → Bool) (hp : Shifts before ts p) :
    Shifts before ts (many starts p) := by
  refine shifts_bind shifts_remaining fun count => ?_
  induction count with
  | zero => exact shifts_pure _
  | succ count ih =>
    refine shifts_bind (shifts_bind shifts_peekKind fun _ => shifts_pure _) fun _ => ?_
    refine shifts_ite (shifts_bind hp fun _ => ?_) (shifts_pure _)
    exact shifts_bind ih fun _ => shifts_pure _

lemma shifts_separated (separator : TokenKind) (hp : Shifts before ts p) :
    Shifts before ts (separated separator p) := by
  have hitem : Shifts before ts (do let _ ← expect separator; p) :=
    shifts_bind (shifts_expect _) fun _ => hp
  exact shifts_bind hp fun _ => shifts_bind (shifts_many _ hitem) fun _ => shifts_pure _

lemma shifts_between (opening closing : TokenKind) (hp : Shifts before ts p) :
    Shifts before ts (between opening closing p) :=
  shifts_bind (shifts_expect _) fun _ => shifts_bind hp fun _ =>
    shifts_bind (shifts_expect _) fun _ => shifts_pure _

lemma shifts_typeAtom (hty : Shifts before ts d.ty) (harray : Shifts before ts d.arrayTy) :
    Shifts before ts (typeAtom d) := by
  refine shifts_bind shifts_peekKind fun kind => ?_
  split
  next => exact shifts_bind shifts_genid fun _ => shifts_pure _
  next => exact shifts_between _ _ hty
  next => exact harray
  next =>
    split
    next => exact shifts_bind shifts_advance fun _ => shifts_pure _
    next => exact shifts_unexpected _
  next => exact shifts_unexpected _

lemma shifts_typeOperand (hty : Shifts before ts d.ty) (harray : Shifts before ts d.arrayTy) :
    Shifts before ts (typeOperand d) :=
  shifts_bind (shifts_typeAtom hty harray) fun _ =>
    shifts_bind (shifts_many _ (shifts_expect _)) fun _ => shifts_pure _

lemma shifts_arrowType (hty : Shifts before ts d.ty) (harray : Shifts before ts d.arrayTy) :
    Shifts before ts (arrowType d) := by
  refine shifts_bind (shifts_typeOperand hty harray) fun _ => ?_
  refine shifts_bind (shifts_isAt _) fun _ => ?_
  refine shifts_ite (shifts_bind (shifts_expect _) fun _ => ?_) (shifts_pure _)
  exact shifts_bind hty fun _ => shifts_pure _

lemma shifts_dimensions : Shifts before ts dimensions := by
  refine shifts_bind (shifts_isAt _) fun _ => shifts_ite ?_ (shifts_pure _)
  exact shifts_bind (shifts_between _ _ (shifts_separated _ (shifts_expect _))) fun _ =>
    shifts_pure _

lemma shifts_arrayType (hty : Shifts before ts d.ty) (harray : Shifts before ts d.arrayTy) :
    Shifts before ts (arrayType d) := by
  refine shifts_bind (shifts_expect _) fun _ => shifts_bind shifts_dimensions fun _ => ?_
  refine shifts_bind (shifts_expect _) fun _ => ?_
  exact shifts_bind (shifts_typeOperand hty harray) fun _ => shifts_pure _

/-- Types, at any level of nesting, are read where they stand as they are alone. -/
lemma deeper_shifts (levels : Nat) :
    Shifts before ts (deeper levels).ty ∧ Shifts before ts (deeper levels).arrayTy := by
  induction levels with
  | zero => exact ⟨shifts_tooDeep, shifts_tooDeep⟩
  | succ levels ih =>
    obtain ⟨hty, harray⟩ := ih
    rw [deeper_succ]
    exact ⟨shifts_arrowType hty harray, shifts_arrayType hty harray⟩

/-- Where a type cannot be read alone, it cannot be read after other tokens, and the furthest error
is at the same token. -/
lemma outermost_ty_fails {e kept : SyntaxError} {s' : ParserState}
    (hrun : outermost.ty ts.toArray ParserState.initial = (.error e, s'))
    (hkept : s'.furthest = some kept) (hindex : t.index = before.length)
    (hbehind : ∀ e ∈ t.furthest, e.index ≤ before.length) :
    ∃ e' t', outermost.ty (before ++ ts).toArray t = (.error e', t') ∧
      t'.furthest.map SyntaxError.index = some (before.length + kept.index) := by
  have hstart : Beside before.length ParserState.initial t :=
    ⟨hindex, fun _ => hbehind, fun _ h => absurd h (Option.not_mem_none _)⟩
  have hshifts : Shifts before ts outermost.ty := (deeper_shifts maxNesting).1
  obtain ⟨a, s₁, t', halone, -, -⟩ | ⟨e, e', s₁, t', halone, hrun', -, h'⟩ := hshifts.runs hstart
  · rw [hrun] at halone
    cases halone
  · rw [hrun] at halone
    cases halone
    exact ⟨e', t', hrun', h'.furthest kept hkept⟩

end Llama.Proofs
