import Llama.Proofs.PatternGrammar
import Llama.Proofs.PrecedenceClimbing
import Llama.Proofs.TokenStretches

/-!
# Parsing patterns

The parser of patterns finds the derivation that lies ahead of it. Otherwise it stops at the first
word with which no derivation can go on. Only where parentheses are nested as deep as there are
levels left does it stop before. `Decides` says this of one parser; it is proved for one production
after the other, then for all levels.
-/

namespace Llama.Proofs

open Llama.Parser Llama.Grammar

variable {kind : TokenKind} {negative : Bool}

section Running

variable {tokens : Array Token} {s : ParserState} {token : Token} {d : Deeper}

/-- A literal without a value is an error at its token. -/
lemma constant_run_error {note : String} (hget : tokens[s.index]? = some token)
    (hstarts : startsConstant token.kind = true)
    (hnote : constantOf token.kind token.value = .error note) :
    constant tokens s =
      failWith (((errorAt tokens s.index).expecting "constant").noting note) tokens
        { s with index := s.index + 1 } := by
  have hwith : startsWith startsConstant tokens s = (.ok true, s) := by
    rw [startsWith_run, ← nextKind_eq, hget, Option.map_some, Option.any_some, hstarts]
  have herror : errorHere tokens s = (.ok (errorAt tokens s.index), s) := rfl
  rw [constant, bind_run_ok herror, bind_run_ok hwith]
  simp only [if_true]
  rw [bind_run_ok (advance_run_next hget)]
  simp only [hnote]

lemma signedConstant_run {number : Token} (hget : tokens[s.index]? = some token)
    (hnumber : tokens[s.index + 1]? = some number) (hkind : number.kind = kind) :
    signedConstant kind negative tokens s =
      match constantOf kind (if negative then "-" ++ number.value else number.value) with
      | .ok c => (.ok (.const ⟨s.nextId, token.span.merge number.span⟩ c),
          { s with index := s.index + 2, nextId := s.nextId + 1 })
      | .error note => failWith ((errorAt tokens (s.index + 1)).noting note) tokens
          { s with index := s.index + 2 } := by
  have hsign : lastSpan tokens { s with index := s.index + 1 } =
      (.ok token.span, { s with index := s.index + 1 }) := by
    simp [lastSpan, Parser.read, hget]
  have herror : errorHere tokens { s with index := s.index + 1 } =
      (.ok (errorAt tokens (s.index + 1)), { s with index := s.index + 1 }) := rfl
  have hexpect : expect kind tokens { s with index := s.index + 1 } =
      (.ok number, { s with index := s.index + 2 }) := expect_run hnumber hkind
  rw [signedConstant, bind_run_ok (advance_run_next hget), bind_run_ok hsign,
    bind_run_ok herror, bind_run_ok hexpect]
  cases constantOf kind (if negative then "-" ++ number.value else number.value) <;> rfl

/-- Where the literal after a sign is missing, the error is there. -/
lemma signedConstant_run_missing (hget : tokens[s.index]? = some token)
    (hnext : tokens[s.index + 1]?.map Token.kind ≠ some kind) :
    ∃ e : SyntaxError, e.index = s.index + 1 ∧ signedConstant kind negative tokens s =
      (.error e, { s with
        index := s.index + 1, furthest := some (SyntaxError.furthest s.furthest e) }) := by
  obtain ⟨e, hindex, hexpect⟩ :=
    expect_run_error (s := { s with index := s.index + 1 }) hnext
  have hsign : lastSpan tokens { s with index := s.index + 1 } =
      (.ok _, { s with index := s.index + 1 }) := rfl
  have herror : errorHere tokens { s with index := s.index + 1 } =
      (.ok _, { s with index := s.index + 1 }) := rfl
  refine ⟨e, hindex, ?_⟩
  rw [signedConstant, bind_run_ok (advance_run_next hget), bind_run_ok hsign,
    bind_run_ok herror, bind_run_error hexpect]

lemma simplePattern_run_literal (hget : tokens[s.index]? = some token)
    (hkind : isPatternLiteral token.kind = true) :
    simplePattern d tokens s =
      (do let read ← constant; return .const (← newSite read.2) read.1 : Parser Pattern)
        tokens s := by
  have hpeek : peekKind tokens s = (.ok (some token.kind), s) := by
    rw [peekKind_run_index, hget, Option.map_some]
  rw [simplePattern, bind_run_ok hpeek]
  rcases patternLiteral_cases hkind with h | h | h | h | h <;> rw [h]

lemma simplePattern_run_constant {c : Const} (hget : tokens[s.index]? = some token)
    (hkind : isPatternLiteral token.kind = true)
    (hc : constantOf token.kind token.value = .ok c) :
    simplePattern d tokens s = (.ok (.const ⟨s.nextId, token.span⟩ c),
      { s with index := s.index + 1, nextId := s.nextId + 1 }) := by
  rw [simplePattern_run_literal hget hkind, bind_run_ok (constant_run hget hc),
    bind_run_ok (newSite_run _ _ _)]
  rfl

lemma simplePattern_run_sign (hget : tokens[s.index]? = some token)
    (hsign : signOf? token.kind = some (kind, negative)) :
    simplePattern d tokens s = signedConstant kind negative tokens s := by
  have hpeek : peekKind tokens s = (.ok (some token.kind), s) := by
    rw [peekKind_run_index, hget, Option.map_some]
  rw [simplePattern, bind_run_ok hpeek]
  rcases sign_cases hsign with ⟨h, rfl, rfl⟩ | ⟨h, rfl, rfl⟩ | ⟨h, rfl, rfl⟩ | ⟨h, rfl, rfl⟩ <;>
    rw [h]

lemma simplePattern_run_parens (hget : tokens[s.index]? = some token)
    (hkind : token.kind = .lParen) :
    simplePattern d tokens s = (do let p ← d.pattern; let _ ← expect .rParen; pure p) tokens
      { s with index := s.index + 1 } := by
  have hpeek : peekKind tokens s = (.ok (some .lParen), s) := by
    rw [peekKind_run_index, hget, Option.map_some, hkind]
  rw [simplePattern, bind_run_ok hpeek]
  exact bind_run_ok (expect_run hget hkind)

lemma simplePattern_run_name (hget : tokens[s.index]? = some token)
    (hkind : token.kind = .genid ∨ token.kind = .conid) :
    simplePattern d tokens s =
      (.ok (if token.kind = .genid then .var ⟨s.nextId, token.span⟩ token.value
        else .constr ⟨s.nextId, token.span⟩ token.value []),
        { s with index := s.index + 1, nextId := s.nextId + 1 }) := by
  have hpeek : peekKind tokens s = (.ok (some token.kind), s) := by
    rw [peekKind_run_index, hget, Option.map_some]
  rw [simplePattern, bind_run_ok hpeek]
  rcases hkind with h | h
  · simp only [h]
    rw [genid, bind_run_ok (bind_run_ok (label_run_ok (expect_run hget h)))]
    rfl
  · simp only [h]
    rw [conid, bind_run_ok (bind_run_ok (label_run_ok (expect_run hget h)))]
    rfl

lemma simplePattern_run_unexpected (h : endsPattern (tokens[s.index]?.map Token.kind)) :
    simplePattern d tokens s = unexpected "pattern" tokens s := by
  rw [simplePattern, bind_run_ok (peekKind_run_index tokens s)]
  unfold endsPattern at h
  generalize tokens[s.index]?.map Token.kind = next at h
  split <;> first | rfl | exact absurd h (by decide)

lemma pattern_run_simple (hfirst : tokens[s.index]?.map Token.kind ≠ some .conid) :
    pattern d tokens s = simplePattern d tokens s := by
  rw [nextKind_eq] at hfirst
  rw [pattern, bind_run_ok (isAt_run .conid tokens s), beq_eq_false_iff_ne.mpr hfirst]
  rfl

end Running

/-- The words that were read are a derivation after which no argument comes. -/
structure Accepts (levels : Nat) (σ : Nonterminal) (tokens : Array Token) (s s' : ParserState)
    (front : List Word) (ps : List Pattern) : Prop where
  cut : ahead tokens s = front ++ ahead tokens s'
  index : s'.index = s.index + front.length
  furthest : s'.furthest = s.furthest
  derives : Derives σ front ps
  ends : Ends σ front (ahead tokens s')
  shallow : Shallow levels front

/-- The words before the error can begin a derivation, but none goes on as the words ahead do. -/
structure Blocks (levels : Nat) (σ : Nonterminal) (tokens : Array Token) (s s' : ParserState)
    (e : SyntaxError) (front rest : List Word) : Prop where
  cut : ahead tokens s = front ++ rest
  index : e.index = s.index + front.length
  furthest : s'.furthest = some (SyntaxError.furthest s.furthest e)
  viable : Viable σ front
  /-- Only the next word counts, and only parentheses that are nested too deep stop the parser
  within a derivation. -/
  blocked : ∀ {rest' u v ps}, rest'.head? = rest.head? → front ++ rest' = u ++ v →
    Derives σ u ps → Ends σ u v → front <+: u ∧ opened front = levels

/-- The parser finds a derivation ahead or the place where there is none. -/
def Decides {α : Type} (levels : Nat) (σ : Nonterminal) (view : α → List Pattern) (p : Parser α)
    (tokens : Array Token) (s : ParserState) : Prop :=
  (∃ a s' front, p tokens s = (.ok a, s') ∧ Accepts levels σ tokens s s' front (view a)) ∨
  ∃ e s' front rest, p tokens s = (.error e, s') ∧ Blocks levels σ tokens s s' e front rest

/-- A pattern without its numbers and spans, as the one tree that is derived. -/
def bareTree (p : Pattern) : List Pattern := [barePattern p]

section Deciding

variable {tokens : Array Token} {s s' : ParserState} {token : Token} {d : Deeper} {levels : Nat}
  {σ : Nonterminal} {u v front rest rest' ws : List Word} {ps : List Pattern} {e : SyntaxError}

lemma decides_ok {α : Type} {view : α → List Pattern} {p : Parser α} {a : α}
    (hrun : p tokens s = (.ok a, s')) (h : Accepts levels σ tokens s s' front (view a)) :
    Decides levels σ view p tokens s :=
  .inl ⟨a, s', front, hrun, h⟩

lemma decides_error {α : Type} {view : α → List Pattern} {p : Parser α}
    (hrun : p tokens s = (.error e, s')) (h : Blocks levels σ tokens s s' e front rest) :
    Decides levels σ view p tokens s :=
  .inr ⟨e, s', front, rest, hrun, h⟩

lemma ahead_after (h : ahead tokens s = front ++ rest)
    (hindex : s'.index = s.index + front.length) : ahead tokens s' = rest := by
  have hdrop : ahead tokens s' = (ahead tokens s).drop front.length := by
    rw [ahead, ahead, ← List.map_drop, List.drop_drop, hindex]
  rw [hdrop, h, List.drop_left]

lemma ahead_next (hget : tokens[s.index]? = some token) :
    ahead tokens s = word token :: ahead tokens { s with index := s.index + 1 } := by
  rw [ahead, (since_next hget).ahead]
  rfl

lemma firstKind_congr (h : rest'.head? = rest.head?) (front : List Word) :
    firstKind (front ++ rest') none = firstKind (front ++ rest) none := by
  rw [firstKind_append, firstKind_append]
  congr 1
  cases rest' <;> cases rest <;> simp_all [firstKind]

/-- A simple pattern is accepted whatever follows. -/
lemma accepts_simple (hcut : ahead tokens s = front ++ rest)
    (hindex : s'.index = s.index + front.length) (hfurthest : s'.furthest = s.furthest)
    (hderives : Derives .simple front ps) (hshallow : Shallow levels front) :
    Accepts levels .simple tokens s s' front ps where
  cut := by rw [hcut, ahead_after hcut hindex]
  index := hindex
  furthest := hfurthest
  derives := hderives
  ends := trivial
  shallow := hshallow

/-- An error at a word with which no simple pattern starts. -/
lemma blocks_first (hindex : e.index = s.index)
    (hfurthest : s'.furthest = some (SyntaxError.furthest s.furthest e))
    (hno : ∀ w tail ps, (ahead tokens s).head? = some w → ¬ Derives .simple (w :: tail) ps) :
    Blocks levels .simple tokens s s' e [] (ahead tokens s) where
  cut := rfl
  index := hindex
  furthest := hfurthest
  viable := viable_nil .simple
  blocked := by
    intro rest' u v ps hhead hcut h _
    obtain ⟨-, w, tail, rfl, -⟩ := exists_of_simple h
    rw [List.nil_append] at hcut
    rw [hcut] at hhead
    exact absurd h (hno w tail ps hhead.symm)

/-- An error after a sign, where there is no literal with a value. -/
lemma blocks_sign {sign : TokenKind} {mark : String} (hsign : signOf? sign = some (kind, negative))
    (hcut : ahead tokens s = (sign, mark) :: rest) (hindex : e.index = s.index + 1)
    (hfurthest : s'.furthest = some (SyntaxError.furthest s.furthest e))
    (hno : ∀ text c, rest.head? = some (kind, text) →
      constantOf kind (if negative then "-" ++ text else text) ≠ .ok c) :
    Blocks levels .simple tokens s s' e [(sign, mark)] rest where
  cut := hcut
  index := hindex
  furthest := hfurthest
  viable := viable_sign hsign mark
  blocked := by
    intro rest' u v ps hhead hcut h _
    obtain ⟨-, w, tail, rfl, -⟩ := exists_of_simple h
    obtain ⟨rfl, hrest⟩ := List.cons.inj hcut
    obtain ⟨text, c, rfl, hc, -⟩ := simple_signed hsign h
    replace hrest : rest' = (kind, text) :: v := hrest
    rw [hrest] at hhead
    exact absurd hc (hno text c hhead.symm)

lemma decides_unexpected (h : endsPattern (tokens[s.index]?.map Token.kind)) :
    Decides levels .simple bareTree (simplePattern d) tokens s := by
  refine decides_error (simplePattern_run_unexpected h)
    (blocks_first (index_errorAt tokens s.index) rfl ?_)
  intro w tail ps hw hderives
  obtain ⟨-, w', tail', heq, hstarts⟩ := exists_of_simple hderives
  cases heq
  rw [nextKind_eq] at h
  cases hahead : ahead tokens s with
  | nil =>
    rw [hahead] at hw
    cases hw
  | cons first rest =>
    rw [hahead] at hw h
    cases hw
    exact absurd (h.symm.trans hstarts) (by decide)

lemma decides_literal (hget : tokens[s.index]? = some token)
    (hkind : isPatternLiteral token.kind = true) :
    Decides (levels + 1) .simple bareTree (simplePattern d) tokens s := by
  have hcut := ahead_next hget
  cases hc : constantOf token.kind token.value with
  | ok c =>
    have hopens : opens (word token) = 0 := by
      rw [word]
      rcases patternLiteral_cases hkind with h | h | h | h | h <;> rw [h] <;> rfl
    exact decides_ok (simplePattern_run_constant hget hkind hc) <|
      accepts_simple hcut rfl rfl (.literal hkind hc) (shallow_cons hopens shallow_nil)
  | error note =>
    have hstarts : startsConstant token.kind = true := by
      rcases patternLiteral_cases hkind with h | h | h | h | h <;> rw [h] <;> rfl
    have hrun := (simplePattern_run_literal (d := d) hget hkind).trans
      (bind_run_error (constant_run_error hget hstarts hc))
    refine decides_error hrun (blocks_first (index_errorAt tokens s.index) rfl ?_)
    intro w tail ps hw hderives
    rw [hcut] at hw
    cases hw
    obtain ⟨-, c, hc', -⟩ := simple_literal hkind hderives
    cases hc.symm.trans hc'

lemma decides_name (hget : tokens[s.index]? = some token)
    (hkind : token.kind = .genid ∨ token.kind = .conid) :
    Decides (levels + 1) .simple bareTree (simplePattern d) tokens s := by
  have hopens : opens (word token) = 0 := by
    rw [word]
    rcases hkind with h | h <;> rw [h] <;> rfl
  have hderives : Derives .simple [word token] (bareTree
      (if token.kind = .genid then .var ⟨s.nextId, token.span⟩ token.value
        else .constr ⟨s.nextId, token.span⟩ token.value [])) := by
    rw [word]
    rcases hkind with h | h <;> rw [h]
    · exact .var
    · exact .constr
  exact decides_ok (simplePattern_run_name hget hkind) <|
    accepts_simple (ahead_next hget) rfl rfl hderives (shallow_cons hopens shallow_nil)

lemma decides_sign (hget : tokens[s.index]? = some token)
    (hsign : signOf? token.kind = some (kind, negative)) :
    Decides (levels + 1) .simple bareTree (simplePattern d) tokens s := by
  have hcut := ahead_next hget
  have hrun : simplePattern d tokens s = signedConstant kind negative tokens s :=
    simplePattern_run_sign hget hsign
  by_cases hnext : tokens[s.index + 1]?.map Token.kind = some kind
  · obtain ⟨number, hnumber, hkind⟩ := Option.map_eq_some_iff.mp hnext
    have hafter := ahead_next (s := { s with index := s.index + 1 }) hnumber
    rw [signedConstant_run hget hnumber hkind] at hrun
    cases hc : constantOf kind (if negative then "-" ++ number.value else number.value) with
    | ok c =>
      have hopens : opens (word token) = 0 ∧ opens (word number) = 0 := by
        rw [word, word, hkind]
        rcases sign_cases hsign with ⟨h, rfl, -⟩ | ⟨h, rfl, -⟩ | ⟨h, rfl, -⟩ | ⟨h, rfl, -⟩ <;>
          rw [h] <;> exact ⟨rfl, rfl⟩
      have hderives : Derives .simple [word token, word number] [.const default c] := by
        rw [word, word, hkind]
        exact .signed hsign hc
      rw [hc] at hrun
      rw [hafter] at hcut
      exact decides_ok hrun <| accepts_simple hcut rfl rfl hderives
        (shallow_cons hopens.1 (shallow_cons hopens.2 shallow_nil))
    | error note =>
      rw [hc] at hrun
      refine decides_error hrun (blocks_sign hsign hcut (index_errorAt tokens _) rfl ?_)
      intro text c hhead hc'
      rw [hafter] at hhead
      cases hhead
      cases hc.symm.trans hc'
  · obtain ⟨e, hindex, hmissing⟩ := signedConstant_run_missing hget hnext
    refine decides_error (hrun.trans hmissing) (blocks_sign hsign hcut hindex rfl ?_)
    intro text c hhead
    refine absurd ?_ hnext
    rw [nextKind_eq tokens { s with index := s.index + 1 }]
    obtain ⟨tail, htail⟩ := List.head?_eq_some_iff.mp hhead
    rw [htail]
    rfl

section Parentheses

variable {s₁ s₂ : ParserState} {opening closing : String}

/-- The pattern between parentheses may be nested one level less. -/
lemma Accepts.parens (h : Accepts levels .pattern tokens s₁ s₂ front ps)
    (hopening : ahead tokens s = (.lParen, opening) :: ahead tokens s₁)
    (hindex : s₁.index = s.index + 1) (hfurthest : s₁.furthest = s.furthest)
    (hclosing : ahead tokens s₂ = (.rParen, closing) :: rest)
    (hindex' : s'.index = s₂.index + 1) (hfurthest' : s'.furthest = s₂.furthest) :
    Accepts (levels + 1) .simple tokens s s'
      ((.lParen, opening) :: (front ++ [(.rParen, closing)])) ps := by
  obtain ⟨p, rfl⟩ := exists_of_pattern h.derives
  have hcut : ahead tokens s =
      (.lParen, opening) :: (front ++ [(.rParen, closing)]) ++ rest := by
    rw [hopening, h.cut, hclosing, List.cons_append, List.append_assoc]
    rfl
  refine accepts_simple hcut ?_ ?_ (.parens h.derives)
    (shallow_parens h.shallow (opened_eq_zero h.derives))
  · rw [hindex', h.index, hindex, List.length_cons, List.length_append, List.length_singleton]
    omega
  · rw [hfurthest', h.furthest, hfurthest]

/-- The error is where the parenthesis should be closed. -/
lemma Accepts.unclosed (h : Accepts levels .pattern tokens s₁ s₂ front ps)
    (hopening : ahead tokens s = (.lParen, opening) :: ahead tokens s₁)
    (hindex : s₁.index = s.index + 1) (hfurthest : s₁.furthest = s.furthest)
    (hnext : firstKind (ahead tokens s₂) none ≠ some .rParen)
    (hindex' : e.index = s₂.index)
    (hfurthest' : s'.furthest = some (SyntaxError.furthest s₂.furthest e)) :
    Blocks (levels + 1) .simple tokens s s' e ((.lParen, opening) :: front)
      (ahead tokens s₂) where
  cut := by rw [hopening, h.cut, List.cons_append]
  index := by
    rw [hindex', h.index, hindex, List.length_cons]
    omega
  furthest := by rw [hfurthest', h.furthest, hfurthest]
  viable := by
    obtain ⟨p, rfl⟩ := exists_of_pattern h.derives
    exact ⟨[(.rParen, ")")], [p], .parens h.derives⟩
  blocked := by
    intro rest' u v ps' hhead hcut hu _
    obtain ⟨-, w, tail, rfl, -⟩ := exists_of_simple hu
    obtain ⟨rfl, hrest⟩ := List.cons.inj hcut
    obtain ⟨ws, closing, rfl, hws⟩ := simple_parens hu
    replace hrest : front ++ rest' = ws ++ ((.rParen, closing) :: v) := by simpa using hrest
    -- The pattern ends here, so that the next word would have to close the parenthesis.
    have hends : Ends .pattern front rest' := fun hfirst => by
      have hstop := h.ends hfirst
      rwa [← List.nil_append (ahead tokens s₂), ← firstKind_congr hhead []] at hstop
    obtain ⟨rfl, -⟩ := derives_unique h.derives hws hrest hends fun _ => rfl
    rw [List.append_cancel_left hrest] at hhead
    refine absurd ?_ hnext
    rw [← List.nil_append (ahead tokens s₂), ← firstKind_congr hhead []]
    rfl

lemma Blocks.parens (h : Blocks levels .pattern tokens s₁ s' e front rest)
    (hopening : ahead tokens s = (.lParen, opening) :: ahead tokens s₁)
    (hindex : s₁.index = s.index + 1) (hfurthest : s₁.furthest = s.furthest) :
    Blocks (levels + 1) .simple tokens s s' e ((.lParen, opening) :: front) rest where
  cut := by rw [hopening, h.cut, List.cons_append]
  index := by
    rw [h.index, hindex, List.length_cons]
    omega
  furthest := by rw [h.furthest, hfurthest]
  viable := by
    obtain ⟨more, ps, hmore⟩ := h.viable
    obtain ⟨p, rfl⟩ := exists_of_pattern hmore
    refine ⟨more ++ [(.rParen, ")")], [p], ?_⟩
    rw [List.cons_append, ← List.append_assoc]
    exact .parens hmore
  blocked := by
    intro rest' u v ps hhead hcut hu _
    obtain ⟨-, w, tail, rfl, -⟩ := exists_of_simple hu
    obtain ⟨rfl, hrest⟩ := List.cons.inj hcut
    obtain ⟨ws, closing, rfl, hws⟩ := simple_parens hu
    replace hrest : front ++ rest' = ws ++ ((.rParen, closing) :: v) := by simpa using hrest
    obtain ⟨hfront, hopened⟩ := h.blocked hhead hrest hws fun _ => rfl
    refine ⟨List.cons_prefix_cons.mpr ⟨rfl, hfront.trans (List.prefix_append _ _)⟩, ?_⟩
    rw [opened, hopened]
    show (1 : Int) + levels = _
    omega

/-- Between parentheses stands whatever the parser finds one level deeper. -/
lemma decides_parens (hget : tokens[s.index]? = some token) (hkind : token.kind = .lParen)
    (hinner : Decides levels .pattern bareTree d.pattern tokens
      { s with index := s.index + 1 }) :
    Decides (levels + 1) .simple bareTree (simplePattern d) tokens s := by
  have hopening := ahead_next hget
  rw [word, hkind] at hopening
  have hrun := simplePattern_run_parens (d := d) hget hkind
  rcases hinner with ⟨p, s₁, front, hp, haccepts⟩ | ⟨e, s₁, front, rest, he, hblocks⟩
  · rw [bind_run_ok hp] at hrun
    by_cases hnext : tokens[s₁.index]?.map Token.kind = some .rParen
    · obtain ⟨last, hlast, hkind'⟩ := Option.map_eq_some_iff.mp hnext
      have hclosing := ahead_next hlast
      rw [word, hkind'] at hclosing
      rw [bind_run_ok (expect_run hlast hkind')] at hrun
      exact decides_ok hrun (haccepts.parens hopening rfl rfl hclosing rfl rfl)
    · obtain ⟨e, hindex, hmissing⟩ := expect_run_error hnext
      rw [bind_run_error hmissing] at hrun
      rw [nextKind_eq] at hnext
      exact decides_error hrun (haccepts.unclosed hopening rfl rfl hnext hindex rfl)
  · rw [bind_run_error he] at hrun
    exact decides_error hrun (hblocks.parens hopening rfl rfl)

end Parentheses

lemma decides_simplePattern
    (hinner : ∀ s, Decides levels .pattern bareTree d.pattern tokens s) (s : ParserState) :
    Decides (levels + 1) .simple bareTree (simplePattern d) tokens s := by
  by_cases hends : endsPattern (tokens[s.index]?.map Token.kind)
  · exact decides_unexpected hends
  · cases hget : tokens[s.index]? with
    | none =>
      rw [hget] at hends
      exact absurd rfl hends
    | some token =>
      rw [hget] at hends
      rcases startsSimplePattern_cases (Bool.not_eq_false _ |>.mp hends) with
        hkind | hkind | ⟨literal, negative, hsign⟩ | hkind
      · exact decides_parens hget hkind (hinner _)
      · exact decides_literal hget hkind
      · exact decides_sign hget hsign
      · exact decides_name hget hkind

section Arguments

variable {s₁ : ParserState} {p : Pattern} {front' : List Word} {args : List Pattern}

lemma Accepts.more (h : Accepts levels .simple tokens s s₁ front [p])
    (h' : Accepts levels .simples tokens s₁ s' front' args) :
    Accepts levels .simples tokens s s' (front ++ front') (p :: args) where
  cut := by rw [h.cut, h'.cut, List.append_assoc]
  index := by rw [h'.index, h.index, List.length_append, Nat.add_assoc]
  furthest := h'.furthest.trans h.furthest
  derives := .more h.derives h'.derives
  ends := h'.ends
  shallow := shallow_append h.shallow (opened_eq_zero h.derives) h'.shallow

/-- Where an argument starts the arguments do not end. -/
lemma exists_of_starts (hstarts : (firstKind (ahead tokens s) none).any startsSimplePattern = true)
    (hcut : ahead tokens s = front ++ rest) (hhead : rest'.head? = rest.head?)
    (heq : front ++ rest' = u ++ v) (hu : Derives .simples u ps) (hends : Ends .simples u v) :
    ∃ ws ws' p ps', u = ws ++ ws' ∧ Derives .simple ws [p] ∧ Derives .simples ws' ps' := by
  cases hu with
  | none =>
    rw [hcut, ← firstKind_congr hhead, heq] at hstarts
    exact absurd (hstarts.symm.trans hends) (by decide)
  | more h h' => exact ⟨_, _, _, _, rfl, h, h'⟩

/-- An error in the first argument. -/
lemma Blocks.first (h : Blocks levels .simple tokens s s' e front rest)
    (hstarts : (firstKind (ahead tokens s) none).any startsSimplePattern = true) :
    Blocks levels .simples tokens s s' e front rest where
  cut := h.cut
  index := h.index
  furthest := h.furthest
  viable := by
    obtain ⟨more, ps, hmore⟩ := h.viable
    obtain ⟨⟨p, rfl⟩, -⟩ := exists_of_simple hmore
    refine ⟨more, [p], ?_⟩
    rw [← List.append_nil (front ++ more)]
    exact .more hmore .none
  blocked := by
    intro rest' u v ps hhead heq hu hends
    obtain ⟨ws, ws', p, ps', rfl, hws, -⟩ := exists_of_starts hstarts h.cut hhead heq hu hends
    rw [List.append_assoc] at heq
    obtain ⟨hfront, hopened⟩ := h.blocked hhead heq hws trivial
    exact ⟨hfront.trans (List.prefix_append _ _), hopened⟩

/-- An error in a later argument. -/
lemma Accepts.later (h : Accepts levels .simple tokens s s₁ front [p])
    (hstarts : (firstKind (ahead tokens s) none).any startsSimplePattern = true)
    (h' : Blocks levels .simples tokens s₁ s' e front' rest) :
    Blocks levels .simples tokens s s' e (front ++ front') rest where
  cut := by rw [h.cut, h'.cut, List.append_assoc]
  index := by rw [h'.index, h.index, List.length_append, Nat.add_assoc]
  furthest := by rw [h'.furthest, h.furthest]
  viable := by
    obtain ⟨more, ps, hmore⟩ := h'.viable
    refine ⟨more, p :: ps, ?_⟩
    rw [List.append_assoc]
    exact .more h.derives hmore
  blocked := by
    intro rest' u v ps hhead heq hu hends
    have hcut : ahead tokens s = front ++ front' ++ rest := by
      rw [h.cut, h'.cut, List.append_assoc]
    obtain ⟨ws, ws', p', ps', rfl, hws, hws'⟩ := exists_of_starts hstarts hcut hhead heq hu hends
    rw [List.append_assoc, List.append_assoc] at heq
    obtain ⟨rfl, -⟩ := derives_unique h.derives hws heq trivial trivial
    obtain ⟨hfront, hopened⟩ := h'.blocked hhead (List.append_cancel_left heq) hws' hends
    refine ⟨(List.prefix_append_right_inj _).mpr hfront, ?_⟩
    rw [opened_append, opened_eq_zero h.derives, hopened, Int.zero_add]

/-- Arguments are read as long as one starts. There are at most as many as words ahead. -/
lemma decides_manyUpTo {item : Parser Pattern}
    (hitem : ∀ s, Decides (levels + 1) .simple bareTree item tokens s) (n : Nat) :
    ∀ s, (ahead tokens s).length ≤ n → Decides (levels + 1) .simples barePatterns
      (manyUpTo startsSimplePattern item n) tokens s := by
  have hstop (s : ParserState) (p : Parser (List Pattern)) (hrun : p tokens s = (.ok [], s))
      (hends : endsPattern (firstKind (ahead tokens s) none)) :
      Decides (levels + 1) .simples barePatterns p tokens s :=
    decides_ok hrun ⟨rfl, rfl, rfl, .none, hends, shallow_nil⟩
  induction n with
  | zero =>
    intro s hlength
    have hnil : ahead tokens s = [] := List.length_eq_zero_iff.mp (Nat.le_zero.mp hlength)
    refine hstop s _ rfl ?_
    rw [hnil]
    rfl
  | succ n ih =>
    intro s hlength
    have hwith := startsWith_run startsSimplePattern tokens s
    cases hstarts : (firstKind (ahead tokens s) none).any startsSimplePattern with
    | false =>
      refine hstop s _ ?_ hstarts
      rw [manyUpTo, bind_run_ok hwith, hstarts]
      rfl
    | true =>
      have hrun : manyUpTo startsSimplePattern item (n + 1) tokens s = (do
          let first ← item
          let rest ← manyUpTo startsSimplePattern item n
          pure (first :: rest)) tokens s := by
        rw [manyUpTo, bind_run_ok hwith, hstarts]
        rfl
      rcases hitem s with ⟨p, s₁, front, hp, haccepts⟩ | ⟨e, s₁, front, rest, he, hblocks⟩
      · rw [bind_run_ok hp] at hrun
        have hshorter : (ahead tokens s₁).length ≤ n := by
          obtain ⟨-, w, tail, hfront, -⟩ := exists_of_simple haccepts.derives
          have hcut := congrArg List.length haccepts.cut
          rw [hfront, List.length_append, List.length_cons] at hcut
          omega
        rcases ih s₁ hshorter with
          ⟨ps, s₂, front', hps, haccepts'⟩ | ⟨e, s₂, front', rest, he, hblocks⟩
        · rw [bind_run_ok hps] at hrun
          exact decides_ok hrun (haccepts.more haccepts')
        · rw [bind_run_error he] at hrun
          exact decides_error hrun (haccepts.later hstarts hblocks)
      · rw [bind_run_error he] at hrun
        exact decides_error hrun (hblocks.first hstarts)

end Arguments

section Patterns

variable {s₁ s₂ : ParserState} {name : String} {args : List Pattern}

lemma Accepts.construct (h : Accepts (levels + 1) .simples tokens s₁ s₂ front args)
    (hfirst : ahead tokens s = (.conid, name) :: ahead tokens s₁)
    (hindex : s₁.index = s.index + 1) (hfurthest : s₁.furthest = s.furthest)
    (hindex' : s'.index = s₂.index) (hfurthest' : s'.furthest = s₂.furthest) :
    Accepts (levels + 1) .pattern tokens s s' ((.conid, name) :: front)
      [.constr default name args] where
  cut := by rw [hfirst, h.cut, ahead_congr hindex', List.cons_append]
  index := by
    rw [hindex', h.index, hindex, List.length_cons]
    omega
  furthest := by rw [hfurthest', h.furthest, hfurthest]
  derives := .construct h.derives
  ends := by
    rw [ahead_congr hindex']
    exact fun _ => h.ends
  shallow := shallow_cons rfl h.shallow

lemma Blocks.construct (h : Blocks levels .simples tokens s₁ s' e front rest)
    (hfirst : ahead tokens s = (.conid, name) :: ahead tokens s₁)
    (hindex : s₁.index = s.index + 1) (hfurthest : s₁.furthest = s.furthest) :
    Blocks levels .pattern tokens s s' e ((.conid, name) :: front) rest where
  cut := by rw [hfirst, h.cut, List.cons_append]
  index := by
    rw [h.index, hindex, List.length_cons]
    omega
  furthest := by rw [h.furthest, hfurthest]
  viable := by
    obtain ⟨more, args, hmore⟩ := h.viable
    exact ⟨more, _, .construct hmore⟩
  blocked := by
    intro rest' u v ps hhead heq hu hends
    rcases pattern_cases hu with ⟨name', tail, args, rfl, htail, -⟩ | ⟨hother, hsimple⟩
    · obtain ⟨hname, hrest⟩ := List.cons.inj heq
      obtain ⟨hfront, hopened⟩ := h.blocked hhead hrest htail (hends rfl)
      refine ⟨List.cons_prefix_cons.mpr ⟨hname, hfront⟩, ?_⟩
      rw [opened, hopened]
      exact Int.zero_add _
    · obtain ⟨-, w, tail, rfl, -⟩ := exists_of_simple hsimple
      rw [← (List.cons.inj heq).1] at hother
      exact absurd rfl hother

lemma Accepts.alone (h : Accepts levels .simple tokens s s' front ps)
    (hfirst : firstKind (ahead tokens s) none ≠ some .conid) :
    Accepts levels .pattern tokens s s' front ps where
  cut := h.cut
  index := h.index
  furthest := h.furthest
  derives := by
    obtain ⟨⟨p, rfl⟩, -⟩ := exists_of_simple h.derives
    exact .alone h.derives
  ends := by
    obtain ⟨-, w, tail, rfl, -⟩ := exists_of_simple h.derives
    rw [h.cut] at hfirst
    exact fun hconid => absurd hconid hfirst
  shallow := h.shallow

lemma Blocks.alone (h : Blocks levels .simple tokens s s' e front rest)
    (hfirst : firstKind (ahead tokens s) none ≠ some .conid) :
    Blocks levels .pattern tokens s s' e front rest where
  cut := h.cut
  index := h.index
  furthest := h.furthest
  viable := by
    obtain ⟨more, ps, hmore⟩ := h.viable
    obtain ⟨⟨p, rfl⟩, -⟩ := exists_of_simple hmore
    exact ⟨more, [p], .alone hmore⟩
  blocked := by
    intro rest' u v ps hhead heq hu hends
    rcases pattern_cases hu with ⟨name, tail, args, rfl, -, -⟩ | ⟨-, hsimple⟩
    · rw [h.cut, ← firstKind_congr hhead, heq] at hfirst
      exact absurd rfl hfirst
    · exact h.blocked hhead heq hsimple trivial

lemma decides_pattern (hinner : ∀ s, Decides levels .pattern bareTree d.pattern tokens s)
    (s : ParserState) : Decides (levels + 1) .pattern bareTree (pattern d) tokens s := by
  have hat := isAt_run .conid tokens s
  by_cases hfirst : firstKind (ahead tokens s) none = some .conid
  · rw [hfirst] at hat
    rw [← nextKind_eq] at hfirst
    obtain ⟨token, hget, hkind⟩ := Option.map_eq_some_iff.mp hfirst
    have hcut := ahead_next hget
    rw [word, hkind] at hcut
    have hconid : conid tokens s =
        (.ok (token.value, token.span), { s with index := s.index + 1 }) := by
      rw [conid, bind_run_ok (label_run_ok (expect_run hget hkind))]
      rfl
    have hrun : pattern d tokens s = (do
        let args ← many startsSimplePattern (simplePattern d)
        return Pattern.constr (← newSiteFrom token.span) token.value args)
          tokens { s with index := s.index + 1 } := by
      rw [pattern, bind_run_ok hat, beq_self_eq_true, if_pos rfl, bind_run_ok hconid]
    have hmany : Decides (levels + 1) .simples barePatterns
        (many startsSimplePattern (simplePattern d)) tokens { s with index := s.index + 1 } := by
      have hargs := decides_manyUpTo (decides_simplePattern hinner) _
        { s with index := s.index + 1 } (Nat.le_of_eq (length_ahead tokens _))
      exact hargs
    rcases hmany with ⟨args, s₁, front, hargs, haccepts⟩ | ⟨e, s₁, front, rest, he, hblocks⟩
    · rw [bind_run_ok hargs] at hrun
      exact decides_ok hrun (haccepts.construct hcut rfl rfl rfl rfl)
    · rw [bind_run_error he] at hrun
      exact decides_error hrun (hblocks.construct hcut rfl rfl)
  · have hrun : pattern d tokens s = simplePattern d tokens s := by
      rw [← nextKind_eq] at hfirst
      exact pattern_run_simple hfirst
    rcases decides_simplePattern hinner s with
      ⟨p, s₁, front, hp, haccepts⟩ | ⟨e, s₁, front, rest, he, hblocks⟩
    · exact decides_ok (hrun.trans hp) (haccepts.alone hfirst)
    · exact decides_error (hrun.trans he) (hblocks.alone hfirst)

/-- At every level the parser finds the derivation ahead or the place where there is none. -/
lemma decides_deeper (tokens : Array Token) (levels : Nat) :
    ∀ s, Decides levels .pattern bareTree (deeper levels).pattern tokens s := by
  induction levels with
  | zero =>
    intro s
    exact .inr ⟨_, _, [], ahead tokens s, rfl, rfl, index_errorAt tokens s.index, rfl,
      viable_nil .pattern, fun _ _ _ _ => ⟨List.nil_prefix, rfl⟩⟩
  | succ levels ih =>
    rw [deeper_succ]
    exact decides_pattern ih

end Patterns

end Deciding

/-! ### The grammar and the parser agree -/

/-- The words from a position up to another. -/
def stretch (tokens : Array Token) (start stop : Nat) : List Word :=
  ((tokens.toList.drop start).take (stop - start)).map word

section Agreement

variable {tokens : Array Token} {s s' : ParserState} {levels j : Nat} {front rest : List Word}
  {p q : Pattern} {e : SyntaxError}

lemma stretch_eq (hcut : ahead tokens s = front ++ rest) (hstop : j = s.index + front.length) :
    stretch tokens s.index j = front := by
  have htake : stretch tokens s.index j = (ahead tokens s).take front.length := by
    rw [stretch, ahead, hstop, List.map_take, Nat.add_sub_cancel_left]
  rw [htake, hcut, List.take_left]

lemma ahead_eq_stretch (hstart : s.index ≤ j) :
    ahead tokens s = stretch tokens s.index j ++ ahead tokens { s with index := j } := by
  have hdrop : tokens.toList.drop j = (tokens.toList.drop s.index).drop (j - s.index) := by
    rw [List.drop_drop, Nat.add_sub_cancel' hstart]
  rw [stretch, ahead, ahead, hdrop, ← List.map_append, List.take_append_drop]

lemma length_stretch (hstop : j ≤ tokens.size) :
    (stretch tokens s.index j).length = j - s.index := by
  simp only [stretch, List.length_map, List.length_take, List.length_drop, Array.length_toList]
  omega

lemma index_add_length_le (hcut : ahead tokens s = front ++ rest) :
    s.index + front.length ≤ max s.index tokens.size := by
  have hlength := congrArg List.length hcut
  rw [length_ahead, List.length_append] at hlength
  omega

lemma cons_of_pattern {ws : List Word} {ps : List Pattern} (h : Derives .pattern ws ps) :
    ∃ w tail, ws = w :: tail := by
  rcases pattern_cases h with ⟨name, tail, args, rfl, -⟩ | ⟨-, hsimple⟩
  · exact ⟨_, tail, rfl⟩
  · obtain ⟨-, w, tail, rfl, -⟩ := exists_of_simple hsimple
    exact ⟨w, tail, rfl⟩

/-- What may follow a pattern, said of the tokens. -/
lemma ends_stretch_iff (hstart : s.index ≤ j)
    (hderives : Derives .pattern (stretch tokens s.index j) [p]) :
    Ends .pattern (stretch tokens s.index j) (ahead tokens { s with index := j }) ↔
      (tokens[s.index]?.map Token.kind = some .conid →
        ∀ token, tokens[j]? = some token → ¬ Begins token.kind) := by
  have hfirst : firstKind (stretch tokens s.index j) none = tokens[s.index]?.map Token.kind := by
    obtain ⟨w, tail, heq⟩ := cons_of_pattern hderives
    rw [nextKind_eq, ahead_eq_stretch hstart, heq]
    rfl
  rw [Ends, hfirst, ← nextKind_eq, endsPattern_iff]
  refine imp_congr_right fun _ => ⟨fun h token htoken => ?_, fun h kind hkind => ?_⟩
  · exact h token.kind (congrArg (Option.map Token.kind) htoken)
  · obtain ⟨token, htoken, rfl⟩ := Option.map_eq_some_iff.mp hkind
    exact h token htoken

lemma accepts_of_run (hrun : (deeper levels).pattern tokens s = (.ok q, s')) :
    Accepts levels .pattern tokens s s' (stretch tokens s.index s'.index) [barePattern q] := by
  rcases decides_deeper tokens levels s with
    ⟨p, s₁, front, hp, h⟩ | ⟨e, s₁, front, rest, he, -⟩
  · cases hrun.symm.trans hp
    rw [stretch_eq h.cut h.index]
    exact h
  · cases hrun.symm.trans he

lemma blocks_of_run (hrun : (deeper levels).pattern tokens s = (.error e, s')) :
    ∃ rest, Blocks levels .pattern tokens s s' e (stretch tokens s.index e.index) rest := by
  rcases decides_deeper tokens levels s with
    ⟨p, s₁, front, hp, -⟩ | ⟨e', s₁, front, rest, he, h⟩
  · cases hrun.symm.trans hp
  · cases hrun.symm.trans he
    rw [stretch_eq h.cut h.index]
    exact ⟨rest, h⟩

/-- A derivation that lies ahead is found. -/
lemma run_of_derives (hstart : s.index ≤ j) (hstop : j ≤ tokens.size)
    (hderives : Derives .pattern (stretch tokens s.index j) [p])
    (hshallow : Shallow levels (stretch tokens s.index j))
    (hends : Ends .pattern (stretch tokens s.index j) (ahead tokens { s with index := j })) :
    ∃ q s', (deeper levels).pattern tokens s = (.ok q, s') ∧ barePattern q = p ∧
      s'.index = j := by
  have hcut : ahead tokens s = _ := ahead_eq_stretch hstart
  rcases decides_deeper tokens levels s with
    ⟨q, s', front, hrun, h⟩ | ⟨e, s', front, rest, -, h⟩
  · obtain ⟨hfront, htree⟩ :=
      derives_unique h.derives hderives (h.cut.symm.trans hcut) h.ends hends
    refine ⟨q, s', hrun, (List.cons.inj htree).1, ?_⟩
    have hindex := h.index
    rw [hfront, length_stretch hstop] at hindex
    omega
  · obtain ⟨hfront, hopened⟩ := h.blocked rfl (h.cut.symm.trans hcut) hderives hends
    have hopen := hshallow front hfront
    omega

/-- An error that is further than all that were kept is the furthest. -/
lemma Behind.furthest_index (h : Behind s) (he : s.index ≤ e.index) :
    (SyntaxError.furthest s.furthest e).index = e.index := by
  rw [index_furthest]
  refine Nat.max_eq_right ?_
  cases hkept : s.furthest with
  | none => exact Nat.le_refl _
  | some k => exact Nat.le_trans (h k hkept) he

/-- No derivation goes on with the word at an error. -/
lemma Blocks.not_viable {front rest : List Word} {w : Word}
    (h : Blocks levels .pattern tokens s s' e front (w :: rest)) (hopened : opened front < levels) :
    ¬ Viable .pattern (front ++ [w]) := by
  rintro ⟨more, ps, hmore⟩
  have heq : front ++ w :: more = (front ++ [w] ++ more) ++ [] := by simp
  have hhead : (w :: more).head? = (w :: rest).head? := rfl
  obtain ⟨-, hdeep⟩ := h.blocked hhead heq hmore fun _ => rfl
  omega

/-- At a position `s.index` with `levels` levels left, the parser reads the pattern `p` up to the
position `j` exactly when the words between derive `p`, their parentheses are nested less than
`levels` deep, and after a constructor no argument follows. When it fails, the words before the
error can begin a derivation, and together with the word at the error they cannot; the error is kept
as the furthest one. -/
theorem pattern_iff_derives (levels : Nat) (tokens : Array Token) (s : ParserState) :
    (∀ p j, (∃ q s', (deeper levels).pattern tokens s = (.ok q, s') ∧ barePattern q = p ∧
        s'.index = j) ↔
      s.index ≤ j ∧ j ≤ tokens.size ∧ Derives .pattern (stretch tokens s.index j) [p] ∧
        Shallow levels (stretch tokens s.index j) ∧
        (tokens[s.index]?.map Token.kind = some .conid →
          ∀ token, tokens[j]? = some token → ¬ Begins token.kind)) ∧
    ∀ e s', (deeper levels).pattern tokens s = (.error e, s') →
      s'.furthest = some (SyntaxError.furthest s.furthest e) ∧
      (Behind s → (SyntaxError.furthest s.furthest e).index = e.index) ∧
      s.index ≤ e.index ∧ e.index ≤ max s.index tokens.size ∧
      Viable .pattern (stretch tokens s.index e.index) ∧
      (opened (stretch tokens s.index e.index) < levels → e.index < tokens.size →
        ¬ Viable .pattern (stretch tokens s.index (e.index + 1))) := by
  refine ⟨fun p j => ⟨?_, ?_⟩, fun e s' hrun => ?_⟩
  · rintro ⟨q, s', hrun, rfl, rfl⟩
    have h := accepts_of_run hrun
    have hindex := h.index
    have hstart : s.index ≤ s'.index := by omega
    have hstop : s'.index ≤ tokens.size := by
      obtain ⟨w, tail, hcons⟩ := cons_of_pattern h.derives
      have hlast := index_add_length_le h.cut
      rw [hcons, List.length_cons] at hindex hlast
      omega
    exact ⟨hstart, hstop, h.derives, h.shallow, (ends_stretch_iff hstart h.derives).mp h.ends⟩
  · rintro ⟨hstart, hstop, hderives, hshallow, hends⟩
    exact run_of_derives hstart hstop hderives hshallow
      ((ends_stretch_iff hstart hderives).mpr hends)
  · obtain ⟨rest, h⟩ := blocks_of_run hrun
    have hindex := h.index
    have hstart : s.index ≤ e.index := by omega
    refine ⟨h.furthest, (·.furthest_index hstart), hstart, ?_, h.viable, fun hopened hsize => ?_⟩
    · rw [hindex]
      exact index_add_length_le h.cut
    · obtain ⟨w, rest, rfl⟩ : ∃ w later, rest = w :: later := by
        refine List.exists_cons_of_ne_nil fun hnil => ?_
        have hlength := congrArg List.length h.cut
        rw [hnil, length_ahead, List.append_nil] at hlength
        omega
      have hcut : ahead tokens s = (stretch tokens s.index e.index ++ [w]) ++ rest := by
        rw [h.cut, ← List.append_cons]
      have hnext : e.index + 1 = s.index + (stretch tokens s.index e.index ++ [w]).length := by
        rw [List.length_append, List.length_singleton, ← Nat.add_assoc, ← hindex]
      rw [stretch_eq hcut hnext]
      exact h.not_viable hopened

end Agreement

end Llama.Proofs
