import Llama.Proofs.DefinitionRounds
import Llama.Proofs.Renumbering

/-!
# Windows

A window is a stretch of a list of tokens, after which nothing follows or a token that starts a
definition. What a parser reads from the tokens of a window alone, it also reads where the window
stands, further on by the tokens before it and with other node numbers: at the end of the window
it cannot tell the end of the input from a token that starts a definition. The only parser that
can is the one for expressions, since an expression may start with `let`; but where an expression
is missing at the end of the window, the window alone is not read at all. So success carries over
for every parser, and failure for every parser unless tokens follow and an expression is due.
-/

namespace Llama.Proofs

open Llama.Parser Llama.Grammar

variable {α β : Type} {d : Deeper} {starts : TokenKind → Bool} {kind : TokenKind} {a : α}
  {s' : ParserState} {e e' : SyntaxError} {item : Parser α}

/-- Some tokens with those before and after them, and the number of nodes that were made before. -/
structure Window where
  before : List Token
  tokens : List Token
  after : List Token
  shift : Nat
  closed : ∀ token ∈ after.head?, startsDefinition token.kind = true

namespace Window

def inner (w : Window) : Array Token := w.tokens.toArray

def whole (w : Window) : Array Token := (w.before ++ w.tokens ++ w.after).toArray

/-- A window after which nothing follows. -/
def last (before tokens : List Token) (shift : Nat) : Window :=
  ⟨before, tokens, [], shift, fun _ h => absurd h (Option.not_mem_none _)⟩

/-- An error where the window stands, for one at a place in the window. -/
def errorView (w : Window) (e : SyntaxError) : SyntaxError :=
  errorAt w.whole (w.before.length + e.index)

variable {w : Window}

lemma size_whole : w.whole.size = w.before.length + w.tokens.length + w.after.length := by
  rw [whole, List.size_toArray, List.length_append, List.length_append]

lemma whole_last (before tokens : List Token) (shift : Nat) :
    (last before tokens shift).whole = (before ++ tokens).toArray := by
  rw [whole]
  exact congrArg List.toArray (List.append_nil _)

lemma whole_of_lt {i : Nat} (h : i < w.tokens.length) :
    w.whole[w.before.length + i]? = w.inner[i]? := by
  have hlt : w.before.length + i < (w.before ++ w.tokens).length := by
    rw [List.length_append]
    omega
  rw [whole, inner, List.getElem?_toArray, List.getElem?_toArray, List.getElem?_append_left hlt,
    List.getElem?_append_right (Nat.le_add_right _ _), Nat.add_sub_cancel_left]

lemma inner_end {i : Nat} (hend : i = w.tokens.length) : w.inner[i]? = none :=
  Array.getElem?_eq_none (Nat.le_of_eq hend.symm)

lemma whole_end : w.whole[w.before.length + w.tokens.length]? = w.after.head? := by
  rw [whole, List.getElem?_toArray, ← List.length_append,
    List.getElem?_append_right (Nat.le_refl _), Nat.sub_self, List.head?_eq_getElem?]

/-- What follows a window is nothing, `let` or `type`. -/
lemma after_cases (w : Window) :
    w.after.head? = none ∨
      ∃ token, w.after.head? = some token ∧ (token.kind = .kwLet ∨ token.kind = .kwType) := by
  cases hnext : w.after.head? with
  | none => exact .inl rfl
  | some token =>
    refine .inr ⟨token, rfl, ?_⟩
    have hstarts := w.closed token hnext
    unfold startsDefinition at hstarts
    split at hstarts
    · exact .inl ‹_›
    · exact .inr ‹_›
    · cases hstarts

end Window

variable {w : Window} {agree : Prop} {s t : ParserState}

/-- Reading in a window alone and reading where it stands have come equally far, past the first
token of the window. -/
structure Aligned (w : Window) (s t : ParserState) : Prop where
  index : t.index = w.before.length + s.index
  nextId : t.nextId = s.nextId + w.shift
  furthest : t.furthest.map SyntaxError.index =
    s.furthest.map fun e => w.before.length + e.index
  pos : 0 < s.index
  le : s.index ≤ w.tokens.length

/-- What the first parser does in a window alone, the second does where the window stands. Its
failures carry over if `agree` holds. -/
structure CarriesAt (w : Window) (agree : Prop) (p q : Parser α) (view : α → α)
    (s t : ParserState) : Prop where
  ok : ∀ a s', p w.inner s = (.ok a, s') →
    ∃ t', q w.whole t = (.ok (view a), t') ∧ Aligned w s' t'
  error : agree → ∀ e s', p w.inner s = (.error e, s') →
    ∃ e' t', q w.whole t = (.error e', t') ∧ e'.index = w.before.length + e.index ∧
      Aligned w s' t'

def Carries (w : Window) (agree : Prop) (p q : Parser α) (view : α → α) : Prop :=
  ∀ s t, Aligned w s t → CarriesAt w agree p q view s t

/-- The same where a token of the window is next. -/
def CarriesHere (w : Window) (agree : Prop) (p q : Parser α) (view : α → α) : Prop :=
  ∀ s t, Aligned w s t → s.index < w.tokens.length → CarriesAt w agree p q view s t

variable {p q : Parser α} {view : α → α}

namespace Aligned

lemma next_of_lt (h : Aligned w s t) (hlt : s.index < w.tokens.length) :
    w.whole[t.index]? = w.inner[s.index]? := by
  rw [h.index, Window.whole_of_lt hlt]

lemma next_end (h : Aligned w s t) (hend : s.index = w.tokens.length) :
    w.whole[t.index]? = w.after.head? := by
  rw [h.index, hend, Window.whole_end]

lemma lt_or_end (h : Aligned w s t) :
    s.index < w.tokens.length ∨ s.index = w.tokens.length :=
  Nat.lt_or_eq_of_le h.le

end Aligned

/-- The class of tokens holds none that starts a definition. -/
def Excludes (starts : TokenKind → Bool) : Prop := starts .kwLet = false ∧ starts .kwType = false

lemma Excludes.any_after (h : Excludes starts) (w : Window) :
    (w.after.head?.map Token.kind).any starts = false := by
  obtain hnone | ⟨token, hsome, hkind | hkind⟩ := w.after_cases
  · rw [hnone]
    rfl
  · rw [hsome, Option.map_some, hkind]
    exact h.1
  · rw [hsome, Option.map_some, hkind]
    exact h.2

lemma excludes_kind (h : startsDefinition kind = false) : Excludes (· == kind) := by
  constructor
  · rw [beq_eq_false_iff_ne]
    rintro rfl
    cases h
  · rw [beq_eq_false_iff_ne]
    rintro rfl
    cases h

lemma carriesAt_ok {t' : ParserState} (hp : p w.inner s = (.ok a, s'))
    (hq : q w.whole t = (.ok (view a), t')) (h : Aligned w s' t') :
    CarriesAt w agree p q view s t := by
  constructor
  · intro a' s'' hrun
    cases hp.symm.trans hrun
    exact ⟨t', hq, h⟩
  · intro _ e s'' hrun
    cases hp.symm.trans hrun

lemma carriesAt_error (hp : p w.inner s = (.error e, s'))
    (hq : agree → ∃ e' t', q w.whole t = (.error e', t') ∧
      e'.index = w.before.length + e.index ∧ Aligned w s' t') :
    CarriesAt w agree p q view s t := by
  constructor
  · intro a' s'' hrun
    cases hp.symm.trans hrun
  · intro hagree e' s'' hrun
    cases hp.symm.trans hrun
    exact hq hagree

lemma CarriesAt.of_runs {p' q' : Parser α} {t' : ParserState}
    (h : CarriesAt w agree p' q' view s' t') (hp : p w.inner s = p' w.inner s')
    (hq : q w.whole t = q' w.whole t') : CarriesAt w agree p q view s t := by
  constructor
  · intro a s'' hrun
    rw [hp] at hrun
    rw [hq]
    exact h.ok a s'' hrun
  · intro hagree e s'' hrun
    rw [hp] at hrun
    rw [hq]
    exact h.error hagree e s'' hrun

lemma Carries.here (h : Carries w agree p q view) : CarriesHere w agree p q view :=
  fun s t hst _ => h s t hst

lemma Carries.weaken {agree' : Prop} (h : Carries w agree' p q view) (hagree : agree → agree') :
    Carries w agree p q view := by
  intro s t hst
  exact ⟨(h s t hst).ok, fun ha => (h s t hst).error (hagree ha)⟩

lemma Carries.congr {view' : α → α} (h : Carries w agree p q view) (hview : ∀ a, view a = view' a) :
    Carries w agree p q view' := by
  have heq : view = view' := funext hview
  exact heq ▸ h

lemma CarriesAt.pure {b : α} (hst : Aligned w s t) (h : b = view a) :
    CarriesAt w agree (Pure.pure a) (Pure.pure b) view s t := by
  subst h
  exact carriesAt_ok rfl rfl hst

lemma carries_pure {b : α} (h : b = view a) : Carries w agree (pure a) (pure b) view :=
  fun _ _ hst => .pure hst h

lemma carries_ite {c : Prop} [Decidable c] {p' q' : Parser α} (hp : Carries w agree p p' view)
    (hq : Carries w agree q q' view) :
    Carries w agree (if c then p else q) (if c then p' else q') view := by
  by_cases hc : c
  · rw [if_pos hc, if_pos hc]
    exact hp
  · rw [if_neg hc, if_neg hc]
    exact hq

lemma CarriesAt.bind {f g : α → Parser β} {view' : β → β} (hp : CarriesAt w agree p q view s t)
    (hf : ∀ a s' t', p w.inner s = (.ok a, s') → Aligned w s' t' →
      CarriesAt w agree (f a) (g (view a)) view' s' t') :
    CarriesAt w agree (p >>= f) (q >>= g) view' s t := by
  cases hrun : p w.inner s with
  | mk result s' =>
    cases result with
    | ok a =>
      obtain ⟨t', hrun', hst'⟩ := hp.ok a s' hrun
      have hrest := hf a s' t' hrun hst'
      constructor
      · intro b s'' h
        rw [bind_run_ok hrun] at h
        rw [bind_run_ok hrun']
        exact hrest.ok b s'' h
      · intro hagree e s'' h
        rw [bind_run_ok hrun] at h
        rw [bind_run_ok hrun']
        exact hrest.error hagree e s'' h
    | error e =>
      refine carriesAt_error (bind_run_error hrun) fun hagree => ?_
      obtain ⟨e', t', hrun', hindex, hst'⟩ := hp.error hagree e s' hrun
      exact ⟨e', t', bind_run_error hrun', hindex, hst'⟩

lemma Carries.bind {f g : α → Parser β} {view' : β → β} (hp : Carries w agree p q view)
    (hf : ∀ a, Carries w agree (f a) (g (view a)) view') :
    Carries w agree (p >>= f) (q >>= g) view' :=
  fun s t hst => (hp s t hst).bind fun a s' t' _ hst' => hf a s' t' hst'

lemma CarriesHere.bind {f g : α → Parser β} {view' : β → β} (hp : CarriesHere w agree p q view)
    (hf : ∀ a, Carries w agree (f a) (g (view a)) view') :
    CarriesHere w agree (p >>= f) (q >>= g) view' :=
  fun s t hst hlt => (hp s t hst hlt).bind fun a s' t' _ hst' => hf a s' t' hst'

lemma CarriesAt.peek {f g : Option Token → Parser β} {view : β → β} (hst : Aligned w s t)
    (hsome : ∀ token, s.index < w.tokens.length →
      CarriesAt w agree (f (some token)) (g (some token)) view s t)
    (hend : s.index = w.tokens.length → CarriesAt w agree (f none) (g w.after.head?) view s t) :
    CarriesAt w agree (Parser.peek >>= f) (Parser.peek >>= g) view s t := by
  have hrun : ∀ (f : Option Token → Parser β) tokens s,
      (Parser.peek >>= f) tokens s = f tokens[s.index]? tokens s := fun _ _ _ => rfl
  obtain hlt | hlast := hst.lt_or_end
  · have hget : w.inner[s.index]? = some w.inner[s.index] := Array.getElem?_eq_getElem hlt
    apply (hsome w.inner[s.index] hlt).of_runs
    · rw [hrun, hget]
    · rw [hrun, hst.next_of_lt hlt, hget]
  · apply (hend hlast).of_runs
    · rw [hrun, Window.inner_end hlast]
    · rw [hrun, hst.next_end hlast]

/-- A parser that takes a token that starts a definition for the end of the input. -/
lemma carries_peek {f g : Option Token → Parser β} {view : β → β}
    (hblind : ∀ token, token.kind = .kwLet ∨ token.kind = .kwType → g (some token) = g none)
    (hsome : ∀ token, CarriesHere w agree (f (some token)) (g (some token)) view)
    (hnone : Carries w agree (f none) (g none) view) :
    Carries w agree (peek >>= f) (peek >>= g) view := by
  intro s t hst
  apply CarriesAt.peek hst
  · exact fun token hlt => hsome token s t hst hlt
  · intro _
    obtain hnext | ⟨token, hnext, hkind⟩ := w.after_cases
    · rw [hnext]
      exact hnone s t hst
    · rw [hnext, hblind token hkind]
      exact hnone s t hst

lemma peekKind_bind_eq (f : Option TokenKind → Parser β) :
    (peekKind >>= f) = peek >>= fun next => f (next.map Token.kind) := rfl

lemma CarriesAt.peekKind {f g : Option TokenKind → Parser β} {view : β → β}
    (hst : Aligned w s t)
    (hsome : ∀ kind, s.index < w.tokens.length →
      CarriesAt w agree (f (some kind)) (g (some kind)) view s t)
    (hend : s.index = w.tokens.length →
      CarriesAt w agree (f none) (g (w.after.head?.map Token.kind)) view s t) :
    CarriesAt w agree (Parser.peekKind >>= f) (Parser.peekKind >>= g) view s t := by
  rw [peekKind_bind_eq, peekKind_bind_eq]
  exact CarriesAt.peek hst (fun token => hsome token.kind) hend

lemma carries_peekKind_end {f g : Option TokenKind → Parser β} {view : β → β}
    (hsome : ∀ kind, CarriesHere w agree (f (some kind)) (g (some kind)) view)
    (hend : ∀ s t, Aligned w s t → s.index = w.tokens.length →
      CarriesAt w agree (f none) (g (w.after.head?.map Token.kind)) view s t) :
    Carries w agree (peekKind >>= f) (peekKind >>= g) view :=
  fun s t hst => .peekKind hst (fun kind hlt => hsome kind s t hst hlt) (hend s t hst)

lemma carries_peekKind {f g : Option TokenKind → Parser β} {view : β → β}
    (hlet : g (some .kwLet) = g none) (htype : g (some .kwType) = g none)
    (hsome : ∀ kind, CarriesHere w agree (f (some kind)) (g (some kind)) view)
    (hnone : Carries w agree (f none) (g none) view) :
    Carries w agree (peekKind >>= f) (peekKind >>= g) view := by
  rw [peekKind_bind_eq, peekKind_bind_eq]
  apply carries_peek _ (fun token => hsome token.kind) hnone
  rintro token (hkind | hkind)
  · rw [Option.map_some, hkind, hlet, Option.map_none]
  · rw [Option.map_some, hkind, htype, Option.map_none]

lemma CarriesAt.startsWith_ite {p p' q q' : Parser β} {view : β → β} (hstarts : Excludes starts)
    (hst : Aligned w s t) (hp : s.index < w.tokens.length → CarriesAt w agree p p' view s t)
    (hq : CarriesAt w agree q q' view s t) :
    CarriesAt w agree (startsWith starts >>= fun c => if c = true then p else q)
      (startsWith starts >>= fun c => if c = true then p' else q') view s t := by
  have hrun : ∀ p q : Parser β, (startsWith starts >>= fun c => if c = true then p else q) =
      Parser.peekKind >>= fun next => if next.any starts = true then p else q := fun _ _ => rfl
  rw [hrun, hrun]
  apply CarriesAt.peekKind hst
  · intro kind hlt
    by_cases hkind : (some kind).any starts = true
    · rw [if_pos hkind, if_pos hkind]
      exact hp hlt
    · rw [if_neg hkind, if_neg hkind]
      exact hq
  · intro _
    rw [hstarts.any_after w]
    exact hq

lemma carries_startsWith_ite {p p' q q' : Parser β} {view : β → β} (hstarts : Excludes starts)
    (hp : CarriesHere w agree p p' view) (hq : Carries w agree q q' view) :
    Carries w agree (startsWith starts >>= fun c => if c = true then p else q)
      (startsWith starts >>= fun c => if c = true then p' else q') view :=
  fun s t hst => .startsWith_ite hstarts hst (hp s t hst) (hq s t hst)

lemma beq_some_eq_any (next : Option TokenKind) (kind : TokenKind) :
    (next == some kind) = next.any (· == kind) := by
  cases next <;> rfl

lemma isAt_eq_startsWith (kind : TokenKind) : isAt kind = startsWith (· == kind) := by
  simp only [isAt, startsWith, beq_some_eq_any]

lemma carries_isAt_ite {p p' q q' : Parser β} {view : β → β} (hkind : startsDefinition kind = false)
    (hp : CarriesHere w agree p p' view) (hq : Carries w agree q q' view) :
    Carries w agree (isAt kind >>= fun c => if c = true then p else q)
      (isAt kind >>= fun c => if c = true then p' else q') view := by
  rw [isAt_eq_startsWith]
  exact carries_startsWith_ite (excludes_kind hkind) hp hq

lemma index_furthest (kept : Option SyntaxError) (e : SyntaxError) :
    (SyntaxError.furthest kept e).index =
      max ((kept.map SyntaxError.index).getD e.index) e.index := by
  cases kept with
  | none => exact (Nat.max_self _).symm
  | some k =>
    simp only [SyntaxError.furthest, Option.map_some, Option.getD_some]
    split
    · omega
    · split
      · change k.index = _
        omega
      · omega

lemma Aligned.record (hst : Aligned w s t) (hindex : e'.index = w.before.length + e.index) :
    Aligned w { s with furthest := some (SyntaxError.furthest s.furthest e) }
      { t with furthest := some (SyntaxError.furthest t.furthest e') } := by
  refine ⟨hst.index, hst.nextId, ?_, hst.pos, hst.le⟩
  have hkept := hst.furthest
  simp only [Option.map_some, index_furthest, hkept, hindex, Option.some.injEq]
  cases s.furthest with
  | none => simp
  | some k =>
    simp only [Option.map_some, Option.getD_some]
    omega

lemma CarriesAt.failWith (hst : Aligned w s t) (hindex : e'.index = w.before.length + e.index) :
    CarriesAt w agree (Parser.failWith e : Parser α) (Parser.failWith e') view s t :=
  carriesAt_error rfl fun _ => ⟨e', _, rfl, hindex, hst.record hindex⟩

lemma carries_failWith (hindex : e'.index = w.before.length + e.index) :
    Carries w agree (failWith e : Parser α) (failWith e') view :=
  fun _ _ hst => .failWith hst hindex

lemma Window.index_errorView (w : Window) (e : SyntaxError) :
    (w.errorView e).index = w.before.length + e.index :=
  index_errorAt _ _

lemma carries_errorHere : Carries w agree errorHere errorHere w.errorView := by
  intro s t hst
  have hview : errorAt w.whole t.index = w.errorView (errorAt w.inner s.index) := by
    rw [Window.errorView, index_errorAt, hst.index]
  refine carriesAt_ok rfl ?_ hst
  rw [← hview]
  rfl

lemma carries_unexpected {expected : String} :
    Carries w agree (unexpected expected : Parser α) (unexpected expected) view :=
  carries_errorHere.bind fun e => carries_failWith (w.index_errorView e)

lemma carries_tooDeep : Carries w agree (tooDeep : Parser α) tooDeep view :=
  carries_errorHere.bind fun e => carries_failWith (w.index_errorView e)

lemma carries_label (name : String) (hp : Carries w agree p q view) :
    Carries w agree (label p name) (label q name) view := by
  intro s t hst
  cases hrun : p w.inner s with
  | mk result s' =>
    cases result with
    | ok a =>
      obtain ⟨t', hrun', hst'⟩ := (hp s t hst).ok a s' hrun
      exact carriesAt_ok (label_run_ok hrun) (label_run_ok hrun') hst'
    | error e =>
      refine carriesAt_error (label_run_error hrun) fun hagree => ?_
      obtain ⟨e', t', hrun', hindex, hst'⟩ := (hp s t hst).error hagree e s' hrun
      exact ⟨_, _, label_run_error hrun', hindex, hst'.record hindex⟩

/-- Going back after a failure needs the failure to carry over. -/
lemma carries_optional (hp : Carries w True p q view) :
    Carries w agree (optional p) (optional q) (Option.map view) := by
  intro s t hst
  cases hrun : p w.inner s with
  | mk result s' =>
    cases result with
    | ok a =>
      obtain ⟨t', hrun', hst'⟩ := (hp s t hst).ok a s' hrun
      exact carriesAt_ok (optional_run_ok hrun) (optional_run_ok hrun') hst'
    | error e =>
      obtain ⟨e', t', hrun', -, hst'⟩ := (hp s t hst).error trivial e s' hrun
      refine carriesAt_ok (optional_run_error hrun) (optional_run_error hrun') ?_
      exact ⟨hst.index, hst'.nextId, hst'.furthest, hst.pos, hst.le⟩

lemma carriesHere_advance : CarriesHere w agree advance advance fun next => next := by
  intro s t hst hlt
  have hget : w.inner[s.index]? = some w.inner[s.index] := Array.getElem?_eq_getElem hlt
  have hget' : w.whole[t.index]? = some w.inner[s.index] := (hst.next_of_lt hlt).trans hget
  refine carriesAt_ok (advance_run_next hget) (advance_run_next hget') ?_
  exact ⟨by rw [hst.index]; rfl, hst.nextId, hst.furthest, Nat.succ_pos _, hlt⟩

lemma carriesHere_take (accepts : TokenKind → Bool) (expected : String) (token : Token) :
    CarriesHere w agree
      (if accepts token.kind then do let _ ← advance; pure token else unexpected expected)
      (if accepts token.kind then do let _ ← advance; pure token else unexpected expected)
      fun token => token := by
  by_cases hkind : accepts token.kind = true
  · rw [if_pos hkind]
    exact carriesHere_advance.bind fun _ => carries_pure rfl
  · rw [if_neg hkind]
    exact carries_unexpected.here

lemma carries_tokenWhere {accepts : TokenKind → Bool} {expected : String}
    (haccepts : Excludes accepts) :
    Carries w agree (tokenWhere accepts expected) (tokenWhere accepts expected)
      fun token => token := by
  refine carries_peek ?_ (carriesHere_take accepts expected) carries_unexpected
  rintro token (hkind | hkind)
  · simp only [hkind, haccepts.1, Bool.false_eq_true, if_false]
  · simp only [hkind, haccepts.2, Bool.false_eq_true, if_false]

lemma carries_expect (hkind : startsDefinition kind = false) :
    Carries w agree (expect kind) (expect kind) fun token => token :=
  carries_tokenWhere (excludes_kind hkind)

lemma carriesHere_expect (kind : TokenKind) :
    CarriesHere w agree (expect kind) (expect kind) fun token => token := by
  intro s t hst hlt
  apply CarriesAt.peek hst
  · exact fun token hlt => carriesHere_take (· == kind) kind.description token s t hst hlt
  · intro hend
    omega

lemma Aligned.freshId (hst : Aligned w s t) :
    Aligned w { s with nextId := s.nextId + 1 } { t with nextId := t.nextId + 1 } := by
  refine ⟨hst.index, ?_, hst.furthest, hst.pos, hst.le⟩
  have hnext := hst.nextId
  change t.nextId + 1 = s.nextId + 1 + w.shift
  rw [hnext, Nat.add_right_comm]

lemma carries_newSite (span : Span) :
    Carries w agree (newSite span) (newSite span) (shiftSite w.shift) := by
  intro s t hst
  have hid : (⟨t.nextId, span⟩ : Site) = shiftSite w.shift ⟨s.nextId, span⟩ := by
    rw [hst.nextId]
    rfl
  have hrun : newSite span w.whole t =
      (.ok (shiftSite w.shift ⟨s.nextId, span⟩), { t with nextId := t.nextId + 1 }) := by
    rw [← hid]
    rfl
  exact carriesAt_ok rfl hrun hst.freshId

lemma carries_lastSpan : Carries w agree lastSpan lastSpan fun span => span := by
  intro s t hst
  have hpos := hst.pos
  have hle := hst.le
  have hlast : w.whole[t.index - 1]? = w.inner[s.index - 1]? := by
    rw [hst.index, Nat.add_sub_assoc hpos]
    exact Window.whole_of_lt (by omega)
  refine carriesAt_ok rfl ?_ hst
  have hindex := hst.index
  simp only [lastSpan, Parser.read, hlast]
  rw [if_neg (by omega), if_neg (by omega)]

lemma carries_newSiteFrom (start : Span) :
    Carries w agree (newSiteFrom start) (newSiteFrom start) (shiftSite w.shift) :=
  carries_lastSpan.bind fun _ => carries_newSite _

lemma manyUpTo_stop {tokens : Array Token}
    (hnext : (tokens[s.index]?.map Token.kind).any starts = false) (n : Nat) :
    manyUpTo starts item n tokens s = (.ok [], s) := by
  cases n with
  | zero => rfl
  | succ n =>
    have hrun : startsWith starts tokens s =
        (.ok ((tokens[s.index]?.map Token.kind).any starts), s) := rfl
    rw [manyUpTo, bind_run_ok hrun, hnext]
    rfl

lemma CarriesAt.manyUpTo_end (hstarts : Excludes starts) (hst : Aligned w s t)
    (hend : s.index = w.tokens.length) (n n' : Nat) :
    CarriesAt w agree (manyUpTo starts item n) (manyUpTo starts item n') (List.map view) s t := by
  have hstop : manyUpTo starts item n w.inner s = (.ok [], s) := by
    apply manyUpTo_stop
    rw [Window.inner_end hend]
    rfl
  have hstop' : manyUpTo starts item n' w.whole t = (.ok [], t) := by
    apply manyUpTo_stop
    rw [hst.next_end hend]
    exact hstarts.any_after w
  exact carriesAt_ok hstop hstop' hst

/-- Since an item takes a token, the bound on their number is not reached. -/
lemma CarriesAt.manyUpTo (hstarts : Excludes starts) (hitem : Carries w agree item item view)
    (hadv : Advances item) (n n' : Nat) (hst : Aligned w s t) (hn : w.tokens.length - s.index ≤ n)
    (hn' : w.tokens.length - s.index ≤ n') :
    CarriesAt w agree (Parser.manyUpTo starts item n) (Parser.manyUpTo starts item n')
      (List.map view) s t := by
  -- Where the window stands more tokens may be left, so the two bounds differ; both are at least
  -- the number of tokens that are left in the window.
  induction n generalizing n' s t with
  | zero =>
    have hle := hst.le
    exact manyUpTo_end hstarts hst (by omega) _ _
  | succ n ih =>
    obtain hlt | hend := hst.lt_or_end
    · obtain ⟨n', rfl⟩ : ∃ m, n' = m + 1 := ⟨n' - 1, by omega⟩
      apply CarriesAt.startsWith_ite hstarts hst
      · intro _
        apply (hitem s t hst).bind
        intro first s₁ t₁ hfirst hst₁
        have hmore := hadv _ _ _ _ hfirst
        apply (ih n' hst₁ (by omega) (by omega)).bind
        intro rest s₂ t₂ _ hst₂
        exact .pure hst₂ rfl
      · exact .pure hst rfl
    · exact manyUpTo_end hstarts hst hend _ _

lemma carries_many (hstarts : Excludes starts) (hitem : Carries w agree item item view)
    (hadv : Advances item) :
    Carries w agree (many starts item) (many starts item) (List.map view) := by
  intro s t hst
  have hindex := hst.index
  have hcarries := CarriesAt.manyUpTo hstarts hitem hadv (w.inner.size - s.index)
    (w.whole.size - t.index) hst (Nat.le_refl _) (by rw [Window.size_whole]; omega)
  exact hcarries.of_runs rfl rfl

lemma carries_separated {separator : TokenKind} (hseparator : startsDefinition separator = false)
    (hitem : Carries w agree item item view) (hscans : Scans anywhere item) :
    Carries w agree (separated separator item) (separated separator item) (List.map view) := by
  apply hitem.bind
  intro first
  refine Carries.bind (carries_many (excludes_kind hseparator) ?_ ?_) fun rest => carries_pure rfl
  · exact (carries_expect hseparator).bind fun _ => hitem
  · exact advances_bind (advances_expect _) fun _ => hscans

lemma carries_between {opening closing : TokenKind} (hopening : startsDefinition opening = false)
    (hclosing : startsDefinition closing = false) (hitem : Carries w agree item item view) :
    Carries w agree (between opening closing item) (between opening closing item) view :=
  (carries_expect hopening).bind fun _ => hitem.bind fun _ =>
    (carries_expect hclosing).bind fun _ => carries_pure rfl

end Llama.Proofs
