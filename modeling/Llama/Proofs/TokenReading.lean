import Llama.Grammar.Program
import Mathlib.Tactic.Common

/-!
# Reading words

A word is a token without its place. `Reads p words follow post` says that the parser `p` takes
exactly the given words wherever they lie ahead, provided that what comes after them satisfies
`follow`, and that its result then satisfies `post`. The lemmas below give one rule for each
combinator, so that a production of the grammar is read by following its own steps.
-/

namespace Llama.Proofs

open Llama.Parser

variable {α β ξ γ : Type} {a : α} {e : SyntaxError} {name text : String} {kind : TokenKind}
  {follow' : Option TokenKind → Prop} {starts : TokenKind → Bool} {item : Parser α} {target : ξ → γ}

/-- The kind and the text of a token. -/
abbrev Word := TokenKind × String

def word (token : Token) : Word := (token.kind, token.value)

/-- The words that are still to be read. -/
def ahead (tokens : Array Token) (s : ParserState) : List Word :=
  (tokens.toList.drop s.index).map word

/-- The kind of the first of some words, which is that of what follows if there are none. -/
def firstKind : List Word → Option TokenKind → Option TokenKind
  | [], follow => follow
  | w :: _, _ => some w.1

/-- The syntax errors that were reported so far. -/
def reportedSyntax (s : ParserState) : List SyntaxError :=
  s.reports.filterMap Report.syntaxError?

/-- The parser takes exactly the given words before anything that satisfies `follow`, gives a
result that satisfies `post` and reports no syntax error. -/
def Reads (p : Parser α) (words : List Word) (follow : Option TokenKind → Prop)
    (post : α → Prop) : Prop :=
  ∀ tokens s rest, ahead tokens s = words ++ rest → follow (firstKind rest none) →
    ∃ a s', p tokens s = (.ok a, s') ∧ post a ∧ ahead tokens s' = rest ∧
      reportedSyntax s' = reportedSyntax s

/-- The parser fails before anything that satisfies `follow` and reports no syntax error. -/
def Refuses (p : Parser α) (follow : Option TokenKind → Prop) : Prop :=
  ∀ tokens s, follow (firstKind (ahead tokens s) none) →
    ∃ e s', p tokens s = (.error e, s') ∧ reportedSyntax s' = reportedSyntax s

@[simp] lemma firstKind_append (ws₁ ws₂ : List Word) (k : Option TokenKind) :
    firstKind (ws₁ ++ ws₂) k = firstKind ws₁ (firstKind ws₂ k) := by
  cases ws₁ <;> rfl

variable {p : Parser α} {tokens : Array Token} {s s' : ParserState} {w : Word} {ws : List Word}
variable {follow : Option TokenKind → Prop} {post : β → Prop}

lemma ahead_congr (h : s'.index = s.index) : ahead tokens s' = ahead tokens s := by
  rw [ahead, ahead, h]

lemma length_ahead (tokens : Array Token) (s : ParserState) :
    (ahead tokens s).length = tokens.size - s.index := by
  simp [ahead]

lemma ahead_eq_cons {rest : List Word} (h : ahead tokens s = w :: rest) :
    ∃ token, tokens[s.index]? = some token ∧ word token = w ∧
      ahead tokens { s with index := s.index + 1 } = rest := by
  unfold ahead at h
  cases hd : tokens.toList.drop s.index with
  | nil => rw [hd] at h; simp at h
  | cons token later =>
    rw [hd, List.map_cons, List.cons.injEq] at h
    have hget : tokens.toList[s.index]? = some token := by
      have hzero := congrArg (fun l : List Token => l[0]?) hd
      simpa using hzero
    refine ⟨token, by simpa using hget, h.1, ?_⟩
    have htail := congrArg List.tail hd
    rw [List.tail_drop, List.tail_cons] at htail
    unfold ahead
    rw [htail, h.2]

lemma nextKind_eq (tokens : Array Token) (s : ParserState) :
    tokens[s.index]?.map Token.kind = firstKind (ahead tokens s) none := by
  cases h : ahead tokens s with
  | nil =>
    have hlen := length_ahead tokens s
    rw [h, List.length_nil] at hlen
    have hnone : tokens[s.index]? = none := Array.getElem?_eq_none (by omega)
    rw [hnone]
    rfl
  | cons w rest =>
    obtain ⟨token, hget, rfl, -⟩ := ahead_eq_cons h
    rw [hget]
    rfl

lemma bind_run_ok {f : α → Parser β} (h : p tokens s = (.ok a, s')) :
    (p >>= f) tokens s = f a tokens s' := by
  simp only [bind, h]

lemma bind_run_error {f : α → Parser β} (h : p tokens s = (.error e, s')) :
    (p >>= f) tokens s = (.error e, s') := by
  simp only [bind, h]

lemma exists_of_bind_run {f : α → Parser β} {b : β} (hrun : (p >>= f) tokens s = (.ok b, s')) :
    ∃ a s₁, p tokens s = (.ok a, s₁) ∧ f a tokens s₁ = (.ok b, s') := by
  cases hfirst : p tokens s with
  | mk result s₁ =>
    cases result with
    | ok a =>
      rw [bind_run_ok hfirst] at hrun
      exact ⟨a, s₁, rfl, hrun⟩
    | error e =>
      rw [bind_run_error hfirst] at hrun
      cases hrun

/-- What single parsers keep is kept by one after the other, also if the first one fails. -/
lemma bind_run_preserves {R : ParserState → ParserState → Prop}
    (htrans : ∀ s₁ s₂ s₃, R s₁ s₂ → R s₂ s₃ → R s₁ s₃) {f : α → Parser β} (hp : R s (p tokens s).2)
    (hf : ∀ a s', R s' (f a tokens s').2) : R s ((p >>= f) tokens s).2 := by
  cases hrun : p tokens s with
  | mk result s' =>
    rw [hrun] at hp
    cases result with
    | ok a =>
      rw [bind_run_ok hrun]
      exact htrans _ _ _ hp (hf a s')
    | error e =>
      rw [bind_run_error hrun]
      exact hp

lemma attempt_run {result : Except SyntaxError α} (h : p tokens s = (result, s')) :
    attempt p tokens s = (.ok result, s') := by
  unfold attempt
  rw [h]

lemma label_run_ok (h : p tokens s = (.ok a, s')) : label p name tokens s = (.ok a, s') := by
  rw [label, bind_run_ok (attempt_run h)]
  rfl

lemma label_run_error (h : p tokens s = (.error e, s')) :
    label p name tokens s = failWith { e with expected := [name] } tokens s' := by
  rw [label, bind_run_ok (attempt_run h)]

lemma optional_run_ok (h : p tokens s = (.ok a, s')) :
    optional p tokens s = (.ok (some a), s') := by
  have hindex : index tokens s = (.ok s.index, s) := rfl
  rw [Parser.optional, bind_run_ok hindex, bind_run_ok (attempt_run h)]
  rfl

lemma optional_run_error (h : p tokens s = (.error e, s')) :
    optional p tokens s = (.ok none, { s' with index := s.index }) := by
  have hindex : index tokens s = (.ok s.index, s) := rfl
  rw [Parser.optional, bind_run_ok hindex, bind_run_ok (attempt_run h)]
  rfl

lemma of_label_run (hrun : label p name tokens s = (.ok a, s')) : p tokens s = (.ok a, s') := by
  cases hfirst : p tokens s with
  | mk result s₁ =>
    cases result with
    | ok a => exact (label_run_ok hfirst).symm.trans hrun
    | error e =>
      rw [label_run_error hfirst] at hrun
      cases hrun

lemma cases_of_optional_run {o : Option α} (hrun : optional p tokens s = (.ok o, s')) :
    (∃ a, o = some a ∧ p tokens s = (.ok a, s')) ∨
      ∃ e s₁, o = none ∧ s' = { s₁ with index := s.index } ∧ p tokens s = (.error e, s₁) := by
  cases hfirst : p tokens s with
  | mk result s₁ =>
    cases result with
    | ok a =>
      cases (optional_run_ok hfirst).symm.trans hrun
      exact .inl ⟨a, rfl, rfl⟩
    | error e =>
      cases (optional_run_error hfirst).symm.trans hrun
      exact .inr ⟨e, s₁, rfl, rfl, rfl⟩

lemma advance_run_next {token : Token} (hget : tokens[s.index]? = some token) :
    advance tokens s = (.ok (some token), { s with index := s.index + 1 }) := by
  simp only [advance, hget]

lemma expect_run {token : Token} (hget : tokens[s.index]? = some token)
    (hkind : token.kind = kind) :
    expect kind tokens s = (.ok token, { s with index := s.index + 1 }) := by
  have hpeek : peek tokens s = (.ok (some token), s) := by
    rw [← hget]
    rfl
  rw [expect, tokenWhere, bind_run_ok hpeek]
  simp only [hkind, beq_self_eq_true, if_true]
  rw [bind_run_ok (advance_run_next hget)]
  rfl

lemma reads_pure {post : α → Prop} (h : post a) : Reads (pure a) [] follow post := by
  intro tokens s rest hrest _
  exact ⟨a, s, rfl, h, hrest, rfl⟩

lemma reads_bind {f : α → Parser β} {ws₁ ws₂ : List Word}
    {follow₁ follow₂ : Option TokenKind → Prop} {post₁ : α → Prop} {post₂ : β → Prop}
    (hp : Reads p ws₁ follow₁ post₁) (hf : ∀ a, post₁ a → Reads (f a) ws₂ follow₂ post₂)
    (hfollow : ∀ k, follow₂ k → follow₁ (firstKind ws₂ k)) :
    Reads (p >>= f) (ws₁ ++ ws₂) follow₂ post₂ := by
  intro tokens s rest hrest hk
  rw [List.append_assoc] at hrest
  have hnext : follow₁ (firstKind (ws₂ ++ rest) none) := by
    rw [firstKind_append]
    exact hfollow _ hk
  obtain ⟨a, s₁, hrun, ha, hahead, herrors⟩ := hp tokens s (ws₂ ++ rest) hrest hnext
  obtain ⟨b, s₂, hrun', hb, hahead', herrors'⟩ := hf a ha tokens s₁ rest hahead hk
  exact ⟨b, s₂, by rw [bind_run_ok hrun, hrun'], hb, hahead', herrors'.trans herrors⟩

/-- The last step that takes words may be followed by steps that take none. -/
lemma reads_bind_last {f : α → Parser β} {post₁ : α → Prop} {post₂ : β → Prop}
    (hp : Reads p ws follow post₁) (hf : ∀ a, post₁ a → Reads (f a) [] follow post₂) :
    Reads (p >>= f) ws follow post₂ := by
  have h := reads_bind hp hf (fun _ hk => hk)
  rwa [List.append_nil] at h

lemma Reads.mono {post post' : α → Prop} (h : Reads p ws follow post)
    (hfollow : ∀ k, follow' k → follow k) (hpost : ∀ a, post a → post' a) :
    Reads p ws follow' post' := by
  intro tokens s rest hrest hk
  obtain ⟨a, s', hrun, ha, hahead, herrors⟩ := h tokens s rest hrest (hfollow _ hk)
  exact ⟨a, s', hrun, hpost a ha, hahead, herrors⟩

/-- A step that only looks at the tokens leaves everything as it is. -/
lemma reads_read_bind {f : Array Token → ParserState → α} {g : α → Parser β}
    (h : ∀ a, Reads (g a) ws follow post) : Reads (Parser.read f >>= g) ws follow post := by
  intro tokens s rest hrest hk
  have hrun : Parser.read f tokens s = (.ok (f tokens s), s) := rfl
  rw [bind_run_ok hrun]
  exact h _ tokens s rest hrest hk

lemma remaining_run (tokens : Array Token) (s : ParserState) :
    remaining tokens s = (.ok (tokens.size - s.index), s) := rfl

/-- There is at least one token left where a word lies ahead. -/
lemma reads_remaining_bind {f : Nat → Parser β}
    (h : ∀ n, Reads (f (n + 1)) (w :: ws) follow post) :
    Reads (remaining >>= f) (w :: ws) follow post := by
  intro tokens s rest hrest hk
  have hlen := length_ahead tokens s
  rw [hrest, List.cons_append, List.length_cons] at hlen
  have hrun : remaining tokens s = (.ok ((ws ++ rest).length + 1), s) := by
    rw [hlen]
    rfl
  rw [bind_run_ok hrun]
  exact h _ tokens s rest hrest hk

lemma peekKind_run_index (tokens : Array Token) (s : ParserState) :
    peekKind tokens s = (.ok (tokens[s.index]?.map Token.kind), s) := rfl

lemma peekKind_run (tokens : Array Token) (s : ParserState) :
    peekKind tokens s = (.ok (firstKind (ahead tokens s) none), s) := by
  rw [← nextKind_eq]
  rfl

lemma reads_peekKind_bind {f : Option TokenKind → Parser β}
    (h : Reads (f (some w.1)) (w :: ws) follow post) :
    Reads (peekKind >>= f) (w :: ws) follow post := by
  intro tokens s rest hrest hk
  rw [bind_run_ok (peekKind_run tokens s), hrest]
  exact h tokens s rest hrest hk

/-- The next kind decides, also when it is that of what follows. -/
lemma reads_peekKind_follow_bind {f : Option TokenKind → Parser β}
    (h : ∀ k, follow k → Reads (f (firstKind ws k)) ws follow post) :
    Reads (peekKind >>= f) ws follow post := by
  intro tokens s rest hrest hk
  rw [bind_run_ok (peekKind_run tokens s), hrest, firstKind_append]
  exact h _ hk tokens s rest hrest hk

/-- The kind after the first word. -/
lemma reads_peekKindAt_bind {f : Option TokenKind → Parser β}
    (h : ∀ k, follow k → Reads (f (firstKind ws k)) (w :: ws) follow post) :
    Reads (peekKindAt 1 >>= f) (w :: ws) follow post := by
  intro tokens s rest hrest hk
  rw [List.cons_append] at hrest
  obtain ⟨token, -, -, htail⟩ := ahead_eq_cons hrest
  have hrun : peekKindAt 1 tokens s = (.ok (firstKind ws (firstKind rest none)), s) := by
    rw [← firstKind_append, ← htail, ← nextKind_eq]
    rfl
  rw [bind_run_ok hrun]
  exact h _ hk tokens s rest hrest hk

lemma peek_run {rest : List Word} (h : ahead tokens s = w :: rest) :
    ∃ token, peek tokens s = (.ok (some token), s) ∧ word token = w := by
  obtain ⟨token, hget, hword, -⟩ := ahead_eq_cons h
  refine ⟨token, ?_, hword⟩
  rw [← hget]
  rfl

lemma reads_peek_bind {f : Option Token → Parser β}
    (h : ∀ token, word token = w → Reads (f (some token)) (w :: ws) follow post) :
    Reads (peek >>= f) (w :: ws) follow post := by
  intro tokens s rest hrest hk
  obtain ⟨token, hrun, hword⟩ := peek_run hrest
  rw [bind_run_ok hrun]
  exact h token hword tokens s rest hrest hk

lemma isAt_run (kind : TokenKind) (tokens : Array Token) (s : ParserState) :
    isAt kind tokens s = (.ok (firstKind (ahead tokens s) none == some kind), s) := by
  unfold isAt
  rw [bind_run_ok (peekKind_run tokens s)]
  rfl

lemma reads_isAt_bind {f : Bool → Parser β} (h : Reads (f true) ((kind, text) :: ws) follow post) :
    Reads (isAt kind >>= f) ((kind, text) :: ws) follow post := by
  intro tokens s rest hrest hk
  rw [bind_run_ok (isAt_run kind tokens s), hrest]
  have htrue : (firstKind ((kind, text) :: ws ++ rest) none == some kind) = true := by
    simp [firstKind]
  rw [htrue]
  exact h tokens s rest hrest hk

lemma reads_isAt_other_bind {f : Bool → Parser β}
    (hother : ∀ k, follow k → firstKind ws k ≠ some kind) (h : Reads (f false) ws follow post) :
    Reads (isAt kind >>= f) ws follow post := by
  intro tokens s rest hrest hk
  rw [bind_run_ok (isAt_run kind tokens s), hrest, firstKind_append]
  rw [beq_eq_false_iff_ne.mpr (hother _ hk)]
  exact h tokens s rest hrest hk

lemma startsWith_run (starts : TokenKind → Bool) (tokens : Array Token) (s : ParserState) :
    startsWith starts tokens s = (.ok ((firstKind (ahead tokens s) none).any starts), s) := by
  unfold startsWith
  rw [bind_run_ok (peekKind_run tokens s)]
  rfl

lemma reads_startsWith_bind {f : Bool → Parser β} (hstart : starts w.1 = true)
    (h : Reads (f true) (w :: ws) follow post) :
    Reads (startsWith starts >>= f) (w :: ws) follow post := by
  intro tokens s rest hrest hk
  have htrue : (firstKind (w :: ws ++ rest) none).any starts = true := hstart
  rw [bind_run_ok (startsWith_run starts tokens s), hrest, htrue]
  exact h tokens s rest hrest hk

lemma advance_run {rest : List Word} (h : ahead tokens s = w :: rest) :
    ∃ token s', advance tokens s = (.ok (some token), s') ∧ word token = w ∧
      ahead tokens s' = rest ∧ reportedSyntax s' = reportedSyntax s := by
  obtain ⟨token, hget, hword, hrest⟩ := ahead_eq_cons h
  refine ⟨token, { s with index := s.index + 1 }, ?_, hword, hrest, rfl⟩
  unfold advance
  rw [hget]

lemma reads_advance_bind {f : Option Token → Parser β}
    (h : ∀ token, word token = w → Reads (f (some token)) ws follow post) :
    Reads (advance >>= f) (w :: ws) follow post := by
  intro tokens s rest hrest hk
  obtain ⟨token, s₁, hrun, hword, hahead, herrors⟩ := advance_run hrest
  obtain ⟨b, s₂, hrun', hb, hahead', herrors'⟩ := h token hword tokens s₁ rest hahead hk
  exact ⟨b, s₂, by rw [bind_run_ok hrun, hrun'], hb, hahead', herrors'.trans herrors⟩

lemma reads_tokenWhere {accepts : TokenKind → Bool} {expected : String} (h : accepts w.1 = true) :
    Reads (tokenWhere accepts expected) [w] (fun _ => True) (fun token => word token = w) := by
  intro tokens s rest hrest _
  obtain ⟨token, hpeek, hword⟩ := peek_run hrest
  obtain ⟨token', s', hrun, -, hahead, herrors⟩ := advance_run hrest
  have hkind : accepts token.kind = true := by
    rw [← hword] at h
    exact h
  refine ⟨token, s', ?_, hword, hahead, herrors⟩
  unfold tokenWhere
  rw [bind_run_ok hpeek]
  simp only [hkind, if_true]
  rw [bind_run_ok hrun]
  rfl

lemma reads_expect (kind : TokenKind) (text : String) :
    Reads (expect kind) [(kind, text)] (fun _ => True)
      (fun token => word token = (kind, text)) :=
  reads_tokenWhere (by simp)

lemma reads_expect_bind {f : Token → Parser β}
    (h : ∀ token, word token = (kind, text) → Reads (f token) ws follow post) :
    Reads (expect kind >>= f) ((kind, text) :: ws) follow post :=
  reads_bind (reads_expect kind text) h (fun _ _ => trivial)

lemma reads_label {post : α → Prop} (h : Reads p ws follow post) :
    Reads (label p name) ws follow post := by
  intro tokens s rest hrest hk
  obtain ⟨a, s', hrun, ha, hahead, herrors⟩ := h tokens s rest hrest hk
  exact ⟨a, s', label_run_ok hrun, ha, hahead, herrors⟩

lemma reads_genid (name : String) :
    Reads genid [(.genid, name)] (fun _ => True) (fun r => r.1 = name) := by
  unfold genid
  refine reads_bind (reads_label (reads_expect .genid name))
    (fun token htoken => reads_pure ?_) (fun _ _ => trivial)
  exact congrArg Prod.snd htoken

lemma reads_conid (name : String) :
    Reads conid [(.conid, name)] (fun _ => True) (fun r => r.1 = name) := by
  unfold conid
  refine reads_bind (reads_label (reads_expect .conid name))
    (fun token htoken => reads_pure ?_) (fun _ _ => trivial)
  exact congrArg Prod.snd htoken

lemma reads_genid_bind {f : String × Span → Parser β}
    (h : ∀ span, Reads (f (name, span)) ws follow post) :
    Reads (genid >>= f) ((.genid, name) :: ws) follow post := by
  refine reads_bind (reads_genid name) ?_ (fun _ _ => trivial)
  rintro ⟨name', span⟩ rfl
  exact h span

lemma reads_conid_bind {f : String × Span → Parser β}
    (h : ∀ span, Reads (f (name, span)) ws follow post) :
    Reads (conid >>= f) ((.conid, name) :: ws) follow post := by
  refine reads_bind (reads_conid name) ?_ (fun _ _ => trivial)
  rintro ⟨name', span⟩ rfl
  exact h span

lemma reads_newSite_bind {f : Site → Parser β} {span : Span}
    (h : ∀ site, Reads (f site) ws follow post) : Reads (newSite span >>= f) ws follow post := by
  intro tokens s rest hrest hk
  have hrun : newSite span tokens s =
      (.ok ⟨s.nextId, span⟩, { s with nextId := s.nextId + 1 }) := rfl
  rw [bind_run_ok hrun]
  exact h _ tokens _ rest hrest hk

lemma reads_newSiteFrom_bind {f : Site → Parser β} {start : Span}
    (h : ∀ site, Reads (f site) ws follow post) :
    Reads (newSiteFrom start >>= f) ws follow post := by
  unfold newSiteFrom
  rw [bind_assoc]
  exact reads_read_bind fun _ => reads_newSite_bind h

lemma reads_between {opening closing : TokenKind} {openText closeText : String} {post : α → Prop}
    (h : Reads p ws follow' post) (hclose : follow' (some closing)) :
    Reads (between opening closing p)
      ((opening, openText) :: (ws ++ [(closing, closeText)])) follow post := by
  unfold between
  refine reads_expect_bind fun _ _ => ?_
  refine reads_bind h (fun a ha => ?_) (fun _ _ => hclose)
  exact reads_expect_bind fun _ _ => reads_pure ha

lemma reads_optional {post : α → Prop} (h : Reads p ws follow post) :
    Reads (Parser.optional p) ws follow (fun o => ∃ a, o = some a ∧ post a) := by
  intro tokens s rest hrest hk
  obtain ⟨a, s', hrun, ha, hahead, herrors⟩ := h tokens s rest hrest hk
  exact ⟨some a, s', optional_run_ok hrun, ⟨a, rfl, ha⟩, hahead, herrors⟩

lemma reads_optional_none (h : Refuses p follow) :
    Reads (Parser.optional p) [] follow (fun o => o = none) := by
  intro tokens s rest hrest hk
  rw [List.nil_append] at hrest
  obtain ⟨e, s', hrun, herrors⟩ := h tokens s (by rw [hrest]; exact hk)
  refine ⟨none, { s' with index := s.index }, optional_run_error hrun, rfl, ?_, herrors⟩
  exact (ahead_congr (s := s) rfl).trans hrest

lemma refuses_expect (kind : TokenKind) : Refuses (expect kind) (fun k => k ≠ some kind) := by
  intro tokens s hk
  rw [← nextKind_eq] at hk
  have hpeek : peek tokens s = (.ok tokens[s.index]?, s) := rfl
  unfold expect tokenWhere
  rw [bind_run_ok hpeek]
  cases hget : tokens[s.index]? with
  | none => exact ⟨_, _, rfl, rfl⟩
  | some token =>
    rw [hget] at hk
    have hkind : (token.kind == kind) = false := by
      refine beq_eq_false_iff_ne.mpr fun heq => hk ?_
      rw [← heq]
      rfl
    simp only [hkind, Bool.false_eq_true, if_false]
    exact ⟨_, _, rfl, rfl⟩

lemma refuses_bind {f : α → Parser β} (h : Refuses p follow) : Refuses (p >>= f) follow := by
  intro tokens s hk
  obtain ⟨e, s', hrun, herrors⟩ := h tokens s hk
  exact ⟨e, s', bind_run_error hrun, herrors⟩

/-- Items that each start with a token of the given class are read one after the other. The
bound on their number is never reached, since an item has at least one word. -/
lemma manyUpTo_run {view : α → γ} {words : ξ → List Word} (xs : List ξ)
    (hitem : ∀ x ∈ xs, Reads item (words x) follow (fun a => view a = target x))
    (hstart : ∀ x ∈ xs, ∃ w ws, words x = w :: ws ∧ starts w.1 = true ∧ follow (some w.1))
    (tokens : Array Token) (n : Nat) (s : ParserState) (rest : List Word)
    (hrest : ahead tokens s = xs.flatMap words ++ rest) (hn : (ahead tokens s).length ≤ n)
    (hk : follow (firstKind rest none)) (hstop : (firstKind rest none).any starts = false) :
    ∃ as s', manyUpTo starts item n tokens s = (.ok as, s') ∧ as.map view = xs.map target ∧
      ahead tokens s' = rest ∧ reportedSyntax s' = reportedSyntax s := by
  induction xs generalizing n s with
  | nil =>
    rw [List.flatMap_nil, List.nil_append] at hrest
    refine ⟨[], s, ?_, rfl, hrest, rfl⟩
    cases n with
    | zero => rfl
    | succ n =>
      rw [manyUpTo, bind_run_ok (startsWith_run starts tokens s), hrest, hstop]
      rfl
  | cons x xs ih =>
    obtain ⟨w, ws, hwords, hw, -⟩ := hstart x (by simp)
    rw [List.flatMap_cons, List.append_assoc] at hrest
    have hnext : follow (firstKind (xs.flatMap words ++ rest) none) := by
      cases xs with
      | nil => simpa using hk
      | cons y ys =>
        obtain ⟨w', ws', hwords', -, hw'⟩ := hstart y (by simp)
        rw [List.flatMap_cons, hwords']
        exact hw'
    obtain ⟨a, s₁, hrun, ha, hahead, herrors⟩ := hitem x (by simp) tokens s _ hrest hnext
    have hlen : (ahead tokens s₁).length < (ahead tokens s).length := by
      rw [hrest, hahead, hwords]
      simp only [List.length_append, List.length_cons]
      omega
    obtain ⟨m, rfl⟩ : ∃ m, n = m + 1 := ⟨n - 1, by omega⟩
    obtain ⟨as, s₂, hrun', has, hahead', herrors'⟩ :=
      ih (fun y hy => hitem y (by simp [hy])) (fun y hy => hstart y (by simp [hy])) m s₁ hahead
        (by omega)
    have hgo : (firstKind (ahead tokens s) none).any starts = true := by
      rw [hrest, hwords]
      exact hw
    refine ⟨a :: as, s₂, ?_, ?_, hahead', herrors'.trans herrors⟩
    · rw [manyUpTo, bind_run_ok (startsWith_run starts tokens s), hgo]
      simp only [if_true]
      rw [bind_run_ok hrun, bind_run_ok hrun']
      rfl
    · rw [List.map_cons, List.map_cons, ha, has]

lemma reads_many {view : α → γ} {words : ξ → List Word} (follow : Option TokenKind → Prop)
    (xs : List ξ) (hitem : ∀ x ∈ xs, Reads item (words x) follow (fun a => view a = target x))
    (hstart : ∀ x ∈ xs, ∃ w ws, words x = w :: ws ∧ starts w.1 = true ∧ follow (some w.1))
    (hfollow : ∀ k, follow' k → follow k ∧ k.any starts = false) :
    Reads (many starts item) (xs.flatMap words) follow'
      (fun as => as.map view = xs.map target) := by
  intro tokens s rest hrest hk
  unfold many
  rw [bind_run_ok (remaining_run _ _)]
  obtain ⟨hk', hstop⟩ := hfollow _ hk
  exact manyUpTo_run xs hitem hstart tokens _ s rest hrest
    (Nat.le_of_eq (length_ahead tokens s)) hk' hstop

lemma reads_many_none (hfollow : ∀ k, follow k → k.any starts = false) :
    Reads (many starts item) [] follow (fun as => as = []) := by
  have hnone : Reads (many starts item) (([] : List α).flatMap fun _ => []) follow
      (fun as => as.map id = ([] : List α).map id) :=
    reads_many (fun _ => True) [] (by simp) (by simp) (fun k hk => ⟨trivial, hfollow k hk⟩)
  exact hnone.mono (fun _ hk => hk) (fun as has => List.map_eq_nil_iff.mp has)

/-- Groups of words with a separator between them. -/
def separatedWords (separator : Word) : List (List Word) → List Word
  | [] => []
  | ws :: rest => ws ++ rest.flatMap (separator :: ·)

lemma reads_separated {separator : TokenKind} {view : α → γ} {words : ξ → List Word}
    (follow : Option TokenKind → Prop) (xs : List ξ) (hne : xs ≠ [])
    (hitem : ∀ x ∈ xs, Reads item (words x) follow (fun a => view a = target x))
    (hsep : follow (some separator)) (hfollow : ∀ k, follow' k → follow k ∧ k ≠ some separator) :
    Reads (separated separator item) (separatedWords (separator, text) (xs.map words)) follow'
      (fun as => as.map view = xs.map target) := by
  obtain ⟨x, xs, rfl⟩ := List.exists_cons_of_ne_nil hne
  rw [List.map_cons, separatedWords, List.flatMap_map]
  unfold separated
  have hmore : Reads (many (· == separator) (do let _ ← expect separator; item))
      (xs.flatMap fun y => (separator, text) :: words y) follow'
      (fun as => as.map view = xs.map target) := by
    refine reads_many follow xs (fun y hy => ?_) (fun y _ => ?_) (fun k hk => ?_)
    · exact reads_expect_bind fun _ _ => hitem y (by simp [hy])
    · exact ⟨(separator, text), words y, rfl, by simp, hsep⟩
    · refine ⟨(hfollow k hk).1, ?_⟩
      have hne' := (hfollow k hk).2
      cases k with
      | none => rfl
      | some kind => simpa using hne'
  refine reads_bind (hitem x (by simp)) (fun a ha => ?_) (fun k hk => ?_)
  · refine reads_bind_last hmore fun as has => reads_pure ?_
    rw [List.map_cons, List.map_cons, ha, has]
  · cases xs with
    | nil => exact (hfollow k hk).1
    | cons y ys => exact hsep

end Llama.Proofs
