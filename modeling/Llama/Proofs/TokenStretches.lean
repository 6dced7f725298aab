import Llama.Proofs.TokenWindows

/-!
# The tokens that a parser takes

A production is followed from its start. `Takes loose before p P` says: when the production has
taken the tokens `before` so far and the parser `p` then succeeds, the tokens taken by then satisfy
`P` together with the result. `TakesAt` also knows the next token. As for the other properties of
parsers there is one rule for each combinator.

Along the way no error is kept that lies beyond the next token. There is one exception: after a type
that cannot be read, reading goes back to the colon before it and can go on as if there were no
type. Where this may have happened, `loose` is true.
-/

namespace Llama.Proofs

open Llama.Parser

variable {α β : Type} {tokens : Array Token} {s s' : ParserState} {start : Nat} {ts : List Token}
  {token : Token} {kind : TokenKind} {starts : TokenKind → Bool} {accepts : TokenKind → Prop}
  {result : Token → α}

/-- From a position up to a state exactly the given tokens have been taken. -/
structure Since (tokens : Array Token) (start : Nat) (taken : List Token) (s : ParserState) :
    Prop where
  ahead : tokens.toList.drop start = taken ++ tokens.toList.drop s.index
  index : s.index = start + taken.length

lemma since_nil (tokens : Array Token) (s : ParserState) : Since tokens s.index [] s := ⟨rfl, rfl⟩

lemma Since.trans {us : List Token} (h : Since tokens start ts s)
    (h' : Since tokens s.index us s') :
    Since tokens start (ts ++ us) s' where
  ahead := by rw [h.ahead, h'.ahead, List.append_assoc]
  index := by rw [h'.index, h.index, List.length_append, Nat.add_assoc]

lemma Since.stay (h : Since tokens start ts s) (hindex : s'.index = s.index) :
    Since tokens start ts s' where
  ahead := by rw [hindex, h.ahead]
  index := hindex.trans h.index

lemma since_next (hget : tokens[s.index]? = some token) :
    Since tokens s.index [token] { s with index := s.index + 1 } where
  ahead := by
    rw [← Array.getElem?_toList] at hget
    obtain ⟨hlt, rfl⟩ := List.getElem?_eq_some_iff.mp hget
    exact List.drop_eq_getElem_cons hlt
  index := rfl

/-- The token before the next one is the last that was taken. -/
lemma Since.last (h : Since tokens start ts s) (hlast : ts.getLast? = some token) :
    s.index ≠ 0 ∧ tokens[s.index - 1]? = some token := by
  have hne : ts ≠ [] := by
    rintro rfl
    cases hlast
  have hpos := List.length_pos_iff.mpr hne
  have hindex := h.index
  refine ⟨by omega, ?_⟩
  have hplace : s.index - 1 = start + (ts.length - 1) := by omega
  rw [← Array.getElem?_toList, hplace, ← List.getElem?_drop, h.ahead,
    List.getElem?_append_left (by omega), ← List.getLast?_eq_getElem?, hlast]

/-- No error is kept beyond the next token. -/
def Behind (s : ParserState) : Prop := ∀ e ∈ s.furthest, e.index ≤ s.index

lemma behind_of_none (h : s.furthest = none) : Behind s :=
  fun e he => absurd (h ▸ he) (Option.not_mem_none e)

lemma Behind.stay (h : Behind s) (hindex : s'.index = s.index)
    (hfurthest : s'.furthest = s.furthest) : Behind s' := by
  unfold Behind
  rwa [hindex, hfurthest]

lemma Behind.next (h : Behind s) : Behind { s with index := s.index + 1 } :=
  fun e he => Nat.le_succ_of_le (h e he)

lemma Behind.record (h : Behind s) {e : SyntaxError} (he : e.index ≤ s.index) :
    Behind { s with furthest := some (SyntaxError.furthest s.furthest e) } := by
  intro e' he'
  cases he'
  rw [index_furthest]
  refine Nat.max_le.mpr ⟨?_, he⟩
  cases hkept : s.furthest with
  | none => exact he
  | some k => exact h k hkept

/-- The next token is a colon. -/
def AtColon (tokens : Array Token) (s : ParserState) : Prop :=
  tokens[s.index]?.map Token.kind = some .colon

/-- After the tokens `before` and ahead of the token `next`, what has been taken when the parser
succeeds satisfies `P` together with its result. -/
def TakesAt (loose : Bool) (before : List Token) (next : Option Token) (p : Parser α)
    (P : List Token → α → Prop) : Prop :=
  ∀ tokens start s s' a, Since tokens start before s → Behind s → tokens[s.index]? = next →
    p tokens s = (.ok a, s') →
    ∃ taken, Since tokens start taken s' ∧ (Behind s' ∨ loose = true ∧ AtColon tokens s') ∧
      P taken a

/-- After the tokens `before`, what has been taken when the parser succeeds satisfies `P` together
with its result. -/
def Takes (loose : Bool) (before : List Token) (p : Parser α) (P : List Token → α → Prop) : Prop :=
  ∀ next, TakesAt loose before next p P

/-- The same ahead of a colon, which stays the next token. Errors may be kept beyond it. -/
def TakesNone (loose : Bool) (before : List Token) (p : Parser α) (P : List Token → α → Prop) :
    Prop :=
  ∀ tokens start s s' a, Since tokens start before s → AtColon tokens s →
    p tokens s = (.ok a, s') → loose = true ∧ Since tokens start before s' ∧ AtColon tokens s' ∧
      P before a

variable {loose : Bool} {before : List Token} {next : Option Token} {p : Parser α}
  {f : α → Parser β} {P : List Token → α → Prop} {Q : List Token → β → Prop}

lemma takes_pure {a : α} (h : P before a) : TakesAt loose before next (pure a) P := by
  intro tokens start s s' a' hsince hbehind _ hrun
  cases hrun
  exact ⟨before, hsince, .inl hbehind, h⟩

/-- A step that knows what was taken before. After it errors may be kept beyond a colon. -/
lemma takes_bind_loose {mid : Bool} (hp : TakesAt mid before next p P)
    (hf : ∀ taken a, P taken a → Takes loose taken (f a) Q)
    (hcolon : mid = true → ∀ taken a, P taken a → TakesNone loose taken (f a) Q) :
    TakesAt loose before next (p >>= f) Q := by
  intro tokens start s s' b hsince hbehind hnext hrun
  obtain ⟨a, s₁, hfirst, hrest⟩ := exists_of_bind_run hrun
  obtain ⟨taken, htaken, hkept, ha⟩ := hp _ _ _ _ _ hsince hbehind hnext hfirst
  rcases hkept with hbehind | ⟨hmid, hat⟩
  · exact hf taken a ha _ _ _ _ _ _ htaken hbehind rfl hrest
  · obtain ⟨hloose, htaken', hat', hb⟩ := hcolon hmid taken a ha _ _ _ _ _ htaken hat hrest
    exact ⟨taken, htaken', .inr ⟨hloose, hat'⟩, hb⟩

lemma takes_bind (hp : TakesAt false before next p P)
    (hf : ∀ taken a, P taken a → Takes loose taken (f a) Q) :
    TakesAt loose before next (p >>= f) Q :=
  takes_bind_loose hp hf fun hmid => absurd hmid Bool.false_ne_true

/-- What a part takes comes after what was taken before. -/
lemma TakesAt.frame (hp : TakesAt loose [] next p P) :
    TakesAt loose before next p fun taken a => ∃ own, P own a ∧ taken = before ++ own := by
  intro tokens start s s' a hsince hbehind hnext hrun
  obtain ⟨own, hown, hkept, ha⟩ := hp _ _ _ _ _ (since_nil tokens s) hbehind hnext hrun
  exact ⟨before ++ own, hsince.trans hown, hkept, own, ha, rfl⟩

/-- A part that takes tokens of its own. -/
lemma takes_part (hp : TakesAt false [] next p P)
    (hf : ∀ taken a, P taken a → Takes loose (before ++ taken) (f a) Q) :
    TakesAt loose before next (p >>= f) Q := by
  refine takes_bind hp.frame fun taken a ha => ?_
  obtain ⟨own, ha, rfl⟩ := ha
  exact hf own a ha

/-- A part after which errors may be kept beyond a colon. -/
lemma takes_part_loose {mid : Bool} (hp : TakesAt mid [] next p P)
    (hf : ∀ taken a, P taken a → Takes loose (before ++ taken) (f a) Q)
    (hcolon : mid = true → ∀ taken a, P taken a → TakesNone loose (before ++ taken) (f a) Q) :
    TakesAt loose before next (p >>= f) Q := by
  refine takes_bind_loose hp.frame (fun taken a ha => ?_) fun hmid taken a ha => ?_
  · obtain ⟨own, ha, rfl⟩ := ha
    exact hf own a ha
  · obtain ⟨own, ha, rfl⟩ := ha
    exact hcolon hmid own a ha

lemma TakesAt.imp {P' : List Token → α → Prop} (hp : TakesAt loose before next p P)
    (himp : ∀ taken a, P taken a → P' taken a) : TakesAt loose before next p P' := by
  intro tokens start s s' a hsince hbehind hnext hrun
  obtain ⟨taken, htaken, hkept, ha⟩ := hp _ _ _ _ _ hsince hbehind hnext hrun
  exact ⟨taken, htaken, hkept, himp _ _ ha⟩

lemma TakesAt.loosen (hp : TakesAt false before next p P) : TakesAt true before next p P := by
  intro tokens start s s' a hsince hbehind hnext hrun
  obtain ⟨taken, htaken, hkept | ⟨hloose, -⟩, ha⟩ := hp _ _ _ _ _ hsince hbehind hnext hrun
  · exact ⟨taken, htaken, .inl hkept, ha⟩
  · cases hloose

lemma takes_ite {c : Prop} [Decidable c] {q : Parser α} (hp : c → TakesAt loose before next p P)
    (hq : ¬c → TakesAt loose before next q P) :
    TakesAt loose before next (if c then p else q) P := by
  by_cases hc : c
  · rw [if_pos hc]
    exact hp hc
  · rw [if_neg hc]
    exact hq hc

lemma takes_failWith (e : SyntaxError) : TakesAt loose before next (failWith e : Parser α) P := by
  intro tokens start s s' a _ _ _ hrun
  cases hrun

/-- The parser takes no token and records no error. -/
def Stays (p : Parser α) : Prop :=
  ∀ tokens s, (p tokens s).2.index = s.index ∧ (p tokens s).2.furthest = s.furthest

lemma takes_stay (hp : Stays p) (hf : ∀ a, TakesAt loose before next (f a) Q) :
    TakesAt loose before next (p >>= f) Q := by
  intro tokens start s s' b hsince hbehind hnext hrun
  obtain ⟨a, s₁, hfirst, hrest⟩ := exists_of_bind_run hrun
  obtain ⟨hindex, hfurthest⟩ := hp tokens s
  rw [hfirst] at hindex hfurthest
  exact hf a _ _ _ _ _ (hsince.stay hindex) (hbehind.stay hindex hfurthest) (by rw [hindex, hnext])
    hrest

lemma takes_isAt {f : Bool → Parser β} (hf : ∀ b, TakesAt loose before next (f b) Q) :
    TakesAt loose before next (isAt kind >>= f) Q :=
  takes_stay (fun _ _ => ⟨rfl, rfl⟩) hf

lemma takes_errorHere {f : SyntaxError → Parser β}
    (hf : ∀ e, TakesAt loose before next (f e) Q) : TakesAt loose before next (errorHere >>= f) Q :=
  takes_stay (fun _ _ => ⟨rfl, rfl⟩) hf

lemma takes_unexpected (expected : String) :
    TakesAt loose before next (unexpected expected : Parser α) P :=
  takes_errorHere fun _ => takes_failWith _

lemma takes_tooDeep : TakesAt loose before next (tooDeep : Parser α) P :=
  takes_errorHere fun _ => takes_failWith _

lemma takes_peek {f : Option Token → Parser β} (hf : TakesAt loose before next (f next) Q) :
    TakesAt loose before next (peek >>= f) Q := by
  intro tokens start s s' b hsince hbehind hnext hrun
  subst hnext
  exact hf _ _ _ _ _ hsince hbehind rfl hrun

lemma takes_peekKind {f : Option TokenKind → Parser β}
    (hf : TakesAt loose before next (f (next.map Token.kind)) Q) :
    TakesAt loose before next (peekKind >>= f) Q := by
  intro tokens start s s' b hsince hbehind hnext hrun
  subst hnext
  exact hf _ _ _ _ _ hsince hbehind rfl hrun

lemma takes_advance {f : Option Token → Parser β}
    (hf : Takes loose (before ++ [token]) (f (some token)) Q) :
    TakesAt loose before (some token) (advance >>= f) Q := by
  intro tokens start s s' b hsince hbehind hnext hrun
  rw [bind_run_ok (advance_run_next hnext)] at hrun
  exact hf _ _ _ _ _ _ (hsince.trans (since_next hnext)) hbehind.next rfl hrun

lemma takes_advance_end {f : Option Token → Parser β} (hf : TakesAt loose before none (f none) Q) :
    TakesAt loose before none (advance >>= f) Q := by
  intro tokens start s s' b hsince hbehind hnext hrun
  have hadvance : advance tokens s = (.ok none, s) := by simp only [advance, hnext]
  rw [bind_run_ok hadvance] at hrun
  exact hf _ _ _ _ _ hsince hbehind hnext hrun

lemma Since.lastSpan_run (h : Since tokens start before s) (hlast : before.getLast? = some token) :
    lastSpan tokens s = (.ok token.span, s) := by
  obtain ⟨hne, hget⟩ := h.last hlast
  unfold lastSpan Parser.read
  dsimp only
  rw [if_neg hne, hget]
  rfl

lemma takes_lastSpan {f : Span → Parser β} (hlast : before.getLast? = some token)
    (hf : TakesAt loose before next (f token.span) Q) :
    TakesAt loose before next (lastSpan >>= f) Q := by
  intro tokens start s s' b hsince hbehind hnext hrun
  rw [bind_run_ok (hsince.lastSpan_run hlast)] at hrun
  exact hf _ _ _ _ _ hsince hbehind hnext hrun

lemma takes_newSite {span : Span} {f : Site → Parser β}
    (hf : ∀ id, TakesAt loose before next (f ⟨id, span⟩) Q) :
    TakesAt loose before next (newSite span >>= f) Q := by
  intro tokens start s s' b hsince hbehind hnext hrun
  have hfresh : Since tokens start before { s with nextId := s.nextId + 1 } := hsince.stay rfl
  exact hf s.nextId _ _ _ _ _ hfresh (hbehind.stay rfl rfl) hnext hrun

/-- A new site reaches up to the last token that was taken. -/
lemma takes_newSiteFrom {start : Span} {f : Site → Parser β} (hne : before ≠ [])
    (hf : ∀ id last, before.getLast? = some last →
      TakesAt loose before next (f ⟨id, start.merge last.span⟩) Q) :
    TakesAt loose before next (newSiteFrom start >>= f) Q := by
  have hlast := List.getLast?_eq_some_getLast hne
  have hsplit : newSiteFrom start >>= f =
      lastSpan >>= fun stop => newSite (start.merge stop) >>= f := bind_assoc _ _ _
  rw [hsplit]
  exact takes_lastSpan hlast (takes_newSite fun id => hf id _ hlast)

/-! ### Ahead of a colon -/

lemma takesNone_pure {a : α} (h : P before a) : TakesNone true before (pure a) P := by
  intro tokens start s s' a' hsince hat hrun
  cases hrun
  exact ⟨rfl, hsince, hat, h⟩

lemma takesNone_newSiteFrom {start : Span} {f : Site → Parser β} (hne : before ≠ [])
    (hf : ∀ id last, before.getLast? = some last →
      TakesNone loose before (f ⟨id, start.merge last.span⟩) Q) :
    TakesNone loose before (newSiteFrom start >>= f) Q := by
  intro tokens start' s s' b hsince hat hrun
  obtain ⟨last, hlast⟩ : ∃ last, before.getLast? = some last :=
    ⟨_, List.getLast?_eq_some_getLast hne⟩
  have hsite : newSiteFrom start tokens s =
      (.ok ⟨s.nextId, start.merge last.span⟩, { s with nextId := s.nextId + 1 }) :=
    bind_run_ok (hsince.lastSpan_run hlast)
  rw [bind_run_ok hsite] at hrun
  have hfresh : Since tokens start' before { s with nextId := s.nextId + 1 } := hsince.stay rfl
  exact hf s.nextId last hlast _ _ _ _ _ hfresh hat hrun

lemma expect_run_error (hnext : tokens[s.index]?.map Token.kind ≠ some kind) :
    ∃ e : SyntaxError, e.index = s.index ∧ expect kind tokens s =
      (.error e, { s with furthest := some (SyntaxError.furthest s.furthest e) }) := by
  have hpeek : peek tokens s = (.ok tokens[s.index]?, s) := rfl
  refine ⟨(errorAt tokens s.index).expecting kind.description, index_errorAt _ _, ?_⟩
  unfold expect tokenWhere
  rw [bind_run_ok hpeek]
  cases hget : tokens[s.index]? with
  | none => rfl
  | some token =>
    rw [hget] at hnext
    have hkind : (token.kind == kind) = false :=
      beq_eq_false_iff_ne.mpr fun heq => hnext (congrArg some heq)
    simp only [hkind, Bool.false_eq_true, if_false]
    rfl

/-- Another token is not found there. -/
lemma takesNone_expect {f : Token → Parser β} (hkind : (kind == .colon) = false) :
    TakesNone loose before (expect kind >>= f) Q := by
  intro tokens start s s' b _ hat hrun
  have hnext : tokens[s.index]?.map Token.kind ≠ some kind := by
    rw [hat]
    exact fun heq => beq_eq_false_iff_ne.mp hkind (Option.some.inj heq).symm
  obtain ⟨e, -, herror⟩ := expect_run_error hnext
  rw [bind_run_error herror] at hrun
  cases hrun

/-- Items that start with other tokens do not start there. -/
lemma takesNone_manyUpTo {item : Parser α} {f : List α → Parser β} (hcolon : starts .colon = false)
    (n : Nat) (hf : TakesNone loose before (f []) Q) :
    TakesNone loose before (manyUpTo starts item n >>= f) Q := by
  intro tokens start s s' b hsince hat hrun
  have hstop : manyUpTo starts item n tokens s = (.ok [], s) := by
    apply manyUpTo_stop
    rw [hat]
    exact hcolon
  rw [bind_run_ok hstop] at hrun
  exact hf _ _ _ _ _ hsince hat hrun

lemma takesNone_many {item : Parser α} {f : List α → Parser β} (hcolon : starts .colon = false)
    (hf : TakesNone loose before (f []) Q) : TakesNone loose before (many starts item >>= f) Q :=
  fun _ _ _ _ _ hsince hat hrun => takesNone_manyUpTo hcolon _ hf _ _ _ _ _ hsince hat hrun

/-- The last part of a node, up to which its site reaches. -/
lemma takes_lastPart {start : Span} {make : α → Site → β} (hp : TakesAt loose [] next p P)
    (hne : before ≠ [])
    (hmake : ∀ taken a, P taken a → ∀ id last, (before ++ taken).getLast? = some last →
      Q (before ++ taken) (make a ⟨id, start.merge last.span⟩)) :
    TakesAt loose before next (p >>= fun a => newSiteFrom start >>= fun site => pure (make a site))
      Q := by
  have hne' : ∀ taken, before ++ taken ≠ [] := List.append_ne_nil_of_left_ne_nil hne
  refine takes_part_loose hp (fun taken a ha _ => ?_) fun hloose taken a ha => ?_
  · exact takes_newSiteFrom (hne' taken) fun id last hlast =>
      takes_pure (hmake taken a ha id last hlast)
  · rw [hloose]
    exact takesNone_newSiteFrom (hne' taken) fun id last hlast =>
      takesNone_pure (hmake taken a ha id last hlast)

/-- The parser takes one token of an accepted kind and makes its result from it. -/
def TakesOne (p : Parser α) (accepts : TokenKind → Prop) (result : Token → α) : Prop :=
  ∀ before, Takes false before p fun taken a =>
    ∃ token, accepts token.kind ∧ taken = before ++ [token] ∧ a = result token

lemma takes_one (hp : TakesOne p accepts result)
    (hf : ∀ token, accepts token.kind → Takes loose (before ++ [token]) (f (result token)) Q) :
    TakesAt loose before next (p >>= f) Q := by
  refine takes_part (hp [] next) fun taken a ha => ?_
  obtain ⟨token, htoken, rfl, rfl⟩ := ha
  exact hf token htoken

lemma takesOne_tokenWhere (accepts : TokenKind → Bool) (expected : String) :
    TakesOne (tokenWhere accepts expected) (accepts · = true) fun token => token := by
  intro before next
  refine takes_peek ?_
  cases next with
  | none => exact takes_unexpected _
  | some token =>
    refine takes_ite (fun haccepts => ?_) fun _ => takes_unexpected _
    exact takes_advance fun _ => takes_pure ⟨token, haccepts, rfl, rfl⟩

lemma takesOne_expect (kind : TokenKind) :
    TakesOne (expect kind) (· = kind) fun token => token := by
  intro before next
  refine (takesOne_tokenWhere _ _ before next).imp fun taken a ha => ?_
  obtain ⟨token, haccepts, h⟩ := ha
  exact ⟨token, beq_iff_eq.mp haccepts, h⟩

lemma takes_expect {f : Token → Parser β}
    (hf : ∀ token : Token, token.kind = kind → Takes loose (before ++ [token]) (f token) Q) :
    TakesAt loose before next (expect kind >>= f) Q :=
  takes_one (takesOne_expect kind) hf

lemma takesOne_label (name : String) (hp : TakesOne p accepts result) :
    TakesOne (label p name) accepts result := by
  intro before next tokens start s s' a hsince hbehind hnext hrun
  exact hp _ _ _ _ _ _ _ hsince hbehind hnext (of_label_run hrun)

lemma takesOne_map (g : α → β) (hp : TakesOne p accepts result) :
    TakesOne (p >>= fun a => pure (g a)) accepts fun token => g (result token) := by
  intro before next
  exact takes_one hp fun token htoken => fun _ => takes_pure ⟨token, htoken, rfl, rfl⟩

lemma takesOne_genid : TakesOne genid (· = .genid) fun token => (token.value, token.span) :=
  takesOne_map _ (takesOne_label _ (takesOne_expect .genid))

lemma takesOne_conid : TakesOne conid (· = .conid) fun token => (token.value, token.span) :=
  takesOne_map _ (takesOne_label _ (takesOne_expect .conid))

/-- A failure must not leave errors beyond the next token, unless this is a colon. -/
lemma takes_optional {R : List Token → Option α → Prop} (hp : Takes false [] p P)
    (herror : ∀ tokens s e s', Behind s → p tokens s = (.error e, s') →
      Behind { s' with index := s.index } ∨ loose = true ∧ AtColon tokens s)
    (hnone : R [] none) (hsome : ∀ taken a, P taken a → R taken (some a)) :
    Takes loose [] (optional p) R := by
  intro next tokens start s s' o hsince hbehind hnext hrun
  rcases cases_of_optional_run hrun with ⟨a, rfl, hfirst⟩ | ⟨e, s₁, rfl, rfl, hfirst⟩
  · obtain ⟨taken, htaken, hkept | ⟨hloose, -⟩, ha⟩ := hp _ _ _ _ _ _ hsince hbehind hnext hfirst
    · exact ⟨taken, htaken, .inl hkept, hsome _ _ ha⟩
    · cases hloose
  · exact ⟨[], hsince.stay rfl, herror _ _ _ _ hbehind hfirst, hnone⟩

/-- A token that is not the expected one is where an error is recorded. -/
lemma Behind.expect_error {e : SyntaxError} (h : Behind s)
    (hrun : expect kind tokens s = (.error e, s')) : Behind { s' with index := s.index } := by
  by_cases hnext : tokens[s.index]?.map Token.kind = some kind
  · obtain ⟨token, hget, hkind⟩ := Option.map_eq_some_iff.mp hnext
    rw [expect_run hget hkind] at hrun
    cases hrun
  · obtain ⟨e', he', herror⟩ := expect_run_error hnext
    rw [herror] at hrun
    cases hrun
    exact h.record (Nat.le_of_eq he')

lemma takes_many {R : List Token → List α → Prop} (hcolon : starts .colon = false)
    (hp : Takes loose [] p P) (hnil : R [] [])
    (hcons : ∀ ts a us as, P ts a → R us as → R (ts ++ us) (a :: as)) :
    Takes loose [] (many starts p) R := by
  intro next
  refine takes_stay (fun _ _ => ⟨rfl, rfl⟩) fun count => ?_
  induction count generalizing next with
  | zero => exact takes_pure hnil
  | succ count ih =>
    refine takes_stay (fun _ _ => ⟨rfl, rfl⟩) fun _ =>
      takes_ite (fun _ => ?_) fun _ => takes_pure hnil
    refine takes_part_loose (hp _) (fun ts a ha next => ?_) fun hloose ts a ha => ?_
    · refine takes_part_loose (ih next) (fun us as has _ => ?_) fun hloose us as has => ?_
      · exact takes_pure (hcons ts a us as ha has)
      · rw [hloose]
        exact takesNone_pure (hcons ts a us as ha has)
    · rw [hloose]
      refine takesNone_manyUpTo hcolon count (takesNone_pure ?_)
      have hone := hcons ts a [] [] ha hnil
      rwa [List.append_nil] at hone

lemma takes_separated {R : List Token → List α → Prop} {separator : TokenKind}
    (hcolon : (separator == .colon) = false) (hp : Takes loose [] p P) (hnil : R [] [])
    (hcons : ∀ token ts a us as, token.kind = separator → P ts a → R us as →
      R (token :: ts ++ us) (a :: as)) :
    Takes loose [] (separated separator p) fun taken as =>
      ∃ ts a us rest, P ts a ∧ R us rest ∧ taken = ts ++ us ∧ as = a :: rest := by
  have hitem : Takes loose [] (do let _ ← expect separator; p) fun taken a =>
      ∃ token ts, token.kind = separator ∧ P ts a ∧ taken = token :: ts := by
    intro next
    refine takes_expect fun token htoken next' => ?_
    refine (hp next').frame.imp fun taken a h => ?_
    obtain ⟨ts, ha, rfl⟩ := h
    exact ⟨token, ts, htoken, ha, rfl⟩
  have hstarts : (TokenKind.colon == separator) = false := by
    rwa [BEq.comm] at hcolon
  have hmany : Takes loose [] (many (· == separator) do let _ ← expect separator; p) R := by
    refine takes_many hstarts hitem hnil fun ts a us as hts has => ?_
    obtain ⟨token, ts, htoken, hts, rfl⟩ := hts
    exact hcons token ts a us as htoken hts has
  intro next
  refine takes_part_loose (hp next) (fun ts a ha next => ?_) fun hloose ts a ha => ?_
  · refine takes_part_loose (hmany next) (fun us rest hrest _ => ?_) fun hloose us rest hrest => ?_
    · exact takes_pure ⟨ts, a, us, rest, ha, hrest, rfl, rfl⟩
    · rw [hloose]
      exact takesNone_pure ⟨ts, a, us, rest, ha, hrest, rfl, rfl⟩
  · rw [hloose]
    refine takesNone_many hstarts (takesNone_pure ⟨ts, a, [], [], ha, hnil, ?_, rfl⟩)
    rw [List.nil_append, List.append_nil]

lemma takes_between {opening closing : TokenKind} (hp : Takes false [] p P) :
    Takes false [] (between opening closing p) fun taken a =>
      ∃ first ts last, first.kind = opening ∧ P ts a ∧ last.kind = closing ∧
        taken = first :: ts ++ [last] := by
  intro next
  refine takes_expect fun first hfirst next => takes_part (hp next) fun ts a ha _ => ?_
  exact takes_expect fun last hlast _ => takes_pure ⟨first, ts, last, hfirst, ha, hlast, rfl⟩

end Llama.Proofs
