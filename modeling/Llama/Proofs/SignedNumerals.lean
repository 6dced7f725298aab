import Llama.Proofs.PatternParsing
import Mathlib.Data.Nat.Digits.Defs

/-!
# Numerals with a sign

The machine integers reach one further below zero than above. A numeral with a minus before it can
therefore be in range when the numeral alone is not. In a pattern the sign is part of the constant,
and in an expression it is an operator, except where the numeral is in range only with the sign.
Both accept the same numerals, and both refuse the others at the digits.
-/

namespace Llama.Proofs

open Llama.Parser Llama.Grammar

/-- The number that digits write in the decimal system. -/
def decimal (digits : List Char) : Nat :=
  Nat.ofDigits 10 (digits.reverse.map fun c => c.toNat - '0'.toNat)

/-- The token is a non-empty row of digits with the value `v`. -/
structure IsNumeral (token : Token) (v : Nat) : Prop where
  kind : token.kind = .intLiteral
  nonempty : token.value ≠ ""
  digits : ∀ c ∈ token.value.toList, c.isDigit = true
  worth : decimal token.value.toList = v

lemma foldl_digits (cs : List Char) (n : Nat) :
    cs.foldl (fun n c => 10 * n + (c.toNat - '0'.toNat)) n =
      Nat.ofDigits 10 (cs.reverse.map fun c => c.toNat - '0'.toNat) + 10 ^ cs.length * n := by
  induction cs generalizing n with
  | nil => simp
  | cons c cs ih =>
    rw [List.foldl_cons, ih, List.reverse_cons, List.map_append, Nat.ofDigits_append,
      List.length_map, List.length_reverse, List.length_cons, List.map_singleton,
      Nat.ofDigits_singleton]
    ring

lemma ofDigits_eq_decimal (cs : List Char) : Text.ofDigits cs = decimal cs := by
  rw [Text.ofDigits, foldl_digits, Nat.mul_zero, Nat.add_zero, decimal]

section Values

variable {token : Token} {v : Nat}

lemma IsNumeral.digits?_eq (h : IsNumeral token v) :
    Text.digits? token.value.toList = some v := by
  have hne : token.value.toList.isEmpty = false := by
    simpa using h.nonempty
  have hall : token.value.toList.all Char.isDigit = true := List.all_eq_true.mpr h.digits
  rw [Text.digits?, hne, hall, ofDigits_eq_decimal, h.worth]
  rfl

lemma IsNumeral.int64?_eq (h : IsNumeral token v) :
    Text.int64? token.value.toList = if v < 2 ^ 63 then some (v : Int) else none := by
  have hdigits := h.digits?_eq
  rw [Text.int64?.eq_def]
  split
  next cs heq => exact absurd (h.digits '-' (heq ▸ List.mem_cons_self)) (by decide)
  next cs heq => exact absurd (h.digits '+' (heq ▸ List.mem_cons_self)) (by decide)
  next =>
    rw [hdigits]
    rfl

lemma IsNumeral.int64?_neg (h : IsNumeral token v) :
    Text.int64? ('-' :: token.value.toList) = if v ≤ 2 ^ 63 then some (-v : Int) else none := by
  rw [Text.int64?, h.digits?_eq]
  rfl

/-- A numeral alone is in range below `2 ^ 63`. -/
lemma IsNumeral.constantOf_eq (h : IsNumeral token v) :
    constantOf token.kind token.value =
      if v < 2 ^ 63 then .ok (.int v) else .error "integer literal out of range" := by
  rw [h.kind, constantOf, h.int64?_eq]
  by_cases hv : v < 2 ^ 63
  · rw [if_pos hv, if_pos hv]
  · rw [if_neg hv, if_neg hv]

/-- A numeral with a minus is in range up to `2 ^ 63`. -/
lemma IsNumeral.constantOf_neg (h : IsNumeral token v) :
    constantOf .intLiteral ("-" ++ token.value) =
      if v ≤ 2 ^ 63 then .ok (.int (-v)) else .error "integer literal out of range" := by
  have hsign : ("-" ++ token.value).toList = '-' :: token.value.toList := String.toList_append
  rw [constantOf, hsign, h.int64?_neg]
  by_cases hv : v ≤ 2 ^ 63
  · rw [if_pos hv, if_pos hv]
  · rw [if_neg hv, if_neg hv]

end Values

/-- The error is at the given token. -/
structure Locates (e : SyntaxError) (token : Token) (index : Nat) : Prop where
  index : e.index = index
  found : e.found = some token
  line : e.line = token.line
  column : e.column = token.column

/-- The parser reads `before` tokens and the numeral after them as the given tree if the numeral
fits, and otherwise it fails at the numeral. -/
structure ReadsNumeral {α : Type} (p : Parser α) (bare : α → α) (tokens : Array Token)
    (s : ParserState) (before : Nat) (numeral : Token) (fits : Prop) (tree : α) : Prop where
  accepts_iff : (∃ a s', p tokens s = (.ok a, s')) ↔ fits
  reads : ∀ a s', p tokens s = (.ok a, s') → bare a = tree ∧ s'.index = s.index + before + 1
  refuses : ∀ e s', p tokens s = (.error e, s') →
    Locates e numeral (s.index + before) ∧
      s'.furthest = some (SyntaxError.furthest s.furthest e)

section Numerals

variable {α : Type} {p : Parser α} {bare : α → α} {tokens : Array Token} {s s' : ParserState}
  {before : Nat} {sign numeral : Token} {fits : Prop} {tree a : α} {e : SyntaxError} {v : Nat}
  {d : Deeper}

lemma readsNumeral_ok (hrun : p tokens s = (.ok a, s')) (hfits : fits) (htree : bare a = tree)
    (hindex : s'.index = s.index + before + 1) :
    ReadsNumeral p bare tokens s before numeral fits tree where
  accepts_iff := ⟨fun _ => hfits, fun _ => ⟨a, s', hrun⟩⟩
  reads := by
    intro a' s₁ hrun'
    cases hrun.symm.trans hrun'
    exact ⟨htree, hindex⟩
  refuses := by
    intro e s₁ hrun'
    cases hrun.symm.trans hrun'

lemma readsNumeral_error (hrun : p tokens s = (.error e, s')) (hfits : ¬ fits)
    (he : Locates e numeral (s.index + before))
    (hfurthest : s'.furthest = some (SyntaxError.furthest s.furthest e)) :
    ReadsNumeral p bare tokens s before numeral fits tree where
  accepts_iff := by
    refine ⟨?_, fun h => absurd h hfits⟩
    rintro ⟨a, s₁, hrun'⟩
    cases hrun.symm.trans hrun'
  reads := by
    intro a s₁ hrun'
    cases hrun.symm.trans hrun'
  refuses := by
    intro e' s₁ hrun'
    cases hrun.symm.trans hrun'
    exact ⟨he, hfurthest⟩

lemma ReadsNumeral.ok_or_error (h : ReadsNumeral p bare tokens s before numeral fits tree) :
    (fits ∧ ∃ a s', p tokens s = (.ok a, s') ∧ bare a = tree ∧ s'.index = s.index + before + 1) ∨
    (¬ fits ∧ ∃ e s', p tokens s = (.error e, s') ∧ Locates e numeral (s.index + before) ∧
      s'.furthest = some (SyntaxError.furthest s.furthest e)) := by
  cases hrun : p tokens s with
  | mk result s' =>
    cases result with
    | ok a => exact .inl ⟨h.accepts_iff.mp ⟨a, s', hrun⟩, a, s', rfl, h.reads a s' hrun⟩
    | error e =>
      refine .inr ⟨fun hfits => ?_, e, s', rfl, h.refuses e s' hrun⟩
      obtain ⟨a, s₁, hok⟩ := h.accepts_iff.mpr hfits
      cases hrun.symm.trans hok

lemma locates_errorAt {token : Token} {index : Nat} (hget : tokens[index]? = some token) :
    Locates (errorAt tokens index) token index := by
  unfold errorAt
  rw [hget]
  exact ⟨rfl, rfl, rfl, rfl⟩

lemma Locates.noting {token : Token} {index : Nat} (h : Locates e token index) (note : String) :
    Locates (e.noting note) token index :=
  ⟨h.index, h.found, h.line, h.column⟩

lemma Locates.expecting {token : Token} {index : Nat} (h : Locates e token index)
    (what : String) : Locates (e.expecting what) token index :=
  ⟨h.index, h.found, h.line, h.column⟩

lemma readsNumeral_pattern (h : IsNumeral numeral v) (hget : tokens[s.index]? = some numeral) :
    ReadsNumeral (pattern d) barePattern tokens s 0 numeral (v < 2 ^ 63)
      (.const default (.int v)) := by
  have hfirst : tokens[s.index]?.map Token.kind ≠ some .conid := by
    rw [hget, Option.map_some, h.kind]
    nofun
  have hkind : isPatternLiteral numeral.kind = true := by
    rw [h.kind]
    rfl
  have hstarts : startsConstant numeral.kind = true := by
    rw [h.kind]
    rfl
  have hconstant := h.constantOf_eq
  by_cases hv : v < 2 ^ 63
  · rw [if_pos hv] at hconstant
    have hrun := simplePattern_run_constant (d := d) hget hkind hconstant
    exact readsNumeral_ok ((pattern_run_simple hfirst).trans hrun) hv rfl rfl
  · rw [if_neg hv] at hconstant
    have hrun : simplePattern d tokens s = _ :=
      (simplePattern_run_literal hget hkind).trans
        (bind_run_error (constant_run_error hget hstarts hconstant))
    exact readsNumeral_error ((pattern_run_simple hfirst).trans hrun) hv
      (((locates_errorAt hget).expecting _).noting _) rfl

/-- With a sign, which is part of the constant. -/
lemma readsNumeral_signed [Decidable fits] {negative : Bool} {n : Int} {note : String}
    (hsign : signOf? sign.kind = some (.intLiteral, negative)) (hkind : numeral.kind = .intLiteral)
    (hconstant : constantOf .intLiteral
        (if negative then "-" ++ numeral.value else numeral.value) =
      if fits then .ok (.int n) else .error note)
    (hget : tokens[s.index]? = some sign) (hnumeral : tokens[s.index + 1]? = some numeral) :
    ReadsNumeral (pattern d) barePattern tokens s 1 numeral fits (.const default (.int n)) := by
  have hfirst : tokens[s.index]?.map Token.kind ≠ some .conid := by
    rw [hget, Option.map_some]
    intro hconid
    rw [Option.some.inj hconid] at hsign
    cases hsign
  have hrun : pattern d tokens s = _ := (pattern_run_simple hfirst).trans <|
    (simplePattern_run_sign hget hsign).trans (signedConstant_run hget hnumeral hkind)
  by_cases hv : fits
  · rw [hconstant, if_pos hv] at hrun
    exact readsNumeral_ok hrun hv rfl rfl
  · rw [hconstant, if_neg hv] at hrun
    exact readsNumeral_error hrun hv ((locates_errorAt hnumeral).noting _) rfl

lemma unary_run_numeral (hkind : numeral.kind = .intLiteral)
    (hget : tokens[s.index]? = some numeral) :
    unary d tokens s =
      (do let read ← constant; return .const (← newSite read.2) read.1 : Parser Expr)
        tokens s := by
  have hpeek : peekKind tokens s = (.ok (some .intLiteral), s) := by
    rw [peekKind_run_index, hget, Option.map_some, hkind]
  rw [unary, bind_run_ok hpeek]
  show primary d tokens s = _
  rw [primary, bind_run_ok hpeek]
  show simpleExpr d tokens s = _
  rw [simpleExpr, bind_run_ok hpeek]
  rfl

lemma readsNumeral_unary (h : IsNumeral numeral v) (hget : tokens[s.index]? = some numeral) :
    ReadsNumeral (unary d) bareExpr tokens s 0 numeral (v < 2 ^ 63) (.const default (.int v)) := by
  have hrun := unary_run_numeral (d := d) h.kind hget
  have hstarts : startsConstant numeral.kind = true := by
    rw [h.kind]
    rfl
  have hconstant := h.constantOf_eq
  by_cases hv : v < 2 ^ 63
  · rw [if_pos hv] at hconstant
    rw [bind_run_ok (constant_run hget hconstant)] at hrun
    exact readsNumeral_ok hrun hv rfl rfl
  · rw [if_neg hv] at hconstant
    rw [bind_run_error (constant_run_error hget hstarts hconstant)] at hrun
    exact readsNumeral_error hrun hv (((locates_errorAt hget).expecting _).noting _) rfl

/-- The sign belongs to the numeral when it is in range only so. -/
lemma leastInteger?_run (h : IsNumeral numeral v) (hget : tokens[s.index]? = some numeral)
    (span : Span) :
    leastInteger? span tokens s =
      if v = 2 ^ 63 then
        (.ok (some (.const ⟨s.nextId, span.merge numeral.span⟩ (.int (-(2 ^ 63))))),
          { s with index := s.index + 1, nextId := s.nextId + 1 })
      else (.ok none, s) := by
  have hpeek : peek tokens s = (.ok (some numeral), s) := by
    rw [← hget]
    rfl
  have hkind : (numeral.kind == .intLiteral) = true := by
    rw [h.kind]
    rfl
  rw [leastInteger?, bind_run_ok hpeek]
  simp only [hkind, Bool.true_and, h.int64?_eq, h.int64?_neg]
  rcases Nat.lt_trichotomy v (2 ^ 63) with hlt | rfl | hgt
  · rw [if_pos hlt, if_neg (Nat.ne_of_lt hlt)]
    rfl
  · rw [if_neg (Nat.lt_irrefl _), if_pos (Nat.le_refl _), if_pos rfl]
    simp only [Option.isNone_none, if_true]
    rw [bind_run_ok (advance_run_next hget), bind_run_ok (newSite_run _ _ _)]
    rfl
  · rw [if_neg (Nat.lt_asymm hgt), if_neg (Nat.not_le_of_lt hgt), if_neg (Nat.ne_of_gt hgt)]
    rfl

/-- A minus is an operator before a numeral that is in range without it. -/
lemma readsNumeral_minus {d' : Deeper} (hoperand : d.operand = unary d') (h : IsNumeral numeral v)
    (hsign : sign.kind = .minus) (hget : tokens[s.index]? = some sign)
    (hnumeral : tokens[s.index + 1]? = some numeral) :
    ReadsNumeral (unary d) bareExpr tokens s 1 numeral (v ≤ 2 ^ 63)
      (if v = 2 ^ 63 then .const default (.int (-(2 ^ 63)))
        else .unary default .minus (.const default (.int v))) := by
  have hpeek : peekKind tokens s = (.ok (some .minus), s) := by
    rw [peekKind_run_index, hget, Option.map_some, hsign]
  have hspan : lastSpan tokens { s with index := s.index + 1 } =
      (.ok sign.span, { s with index := s.index + 1 }) := by
    simp [lastSpan, Parser.read, hget]
  have hleast := leastInteger?_run (s := { s with index := s.index + 1 }) h hnumeral sign.span
  have hrun : unary d tokens s = prefixed d .minus tokens { s with index := s.index + 1 } := by
    rw [unary, bind_run_ok hpeek]
    exact bind_run_ok (advance_run_next hget)
  rw [prefixed, bind_run_ok hspan, if_pos rfl] at hrun
  by_cases heq : v = 2 ^ 63
  · rw [if_pos heq] at hleast
    rw [bind_run_ok hleast] at hrun
    rw [if_pos heq]
    exact readsNumeral_ok hrun (Nat.le_of_eq heq) rfl rfl
  · rw [if_neg heq] at hleast
    rw [bind_run_ok hleast] at hrun
    simp only [hoperand] at hrun
    rw [if_neg heq]
    have hunary : ReadsNumeral (unary d') bareExpr tokens { s with index := s.index + 1 } 0 numeral
        (v < 2 ^ 63) (.const default (.int v)) := readsNumeral_unary h hnumeral
    rcases hunary.ok_or_error with
      ⟨hv, a, s', hok, htree, hindex⟩ | ⟨hv, e, s', herror, he, hfurthest⟩
    · rw [bind_run_ok hok, bind_run_ok (newSite_run _ _ _)] at hrun
      refine readsNumeral_ok hrun (Nat.le_of_lt hv) ?_ hindex
      rw [bareExpr, htree]
    · rw [bind_run_error herror] at hrun
      exact readsNumeral_error hrun (fun hle => hv (Nat.lt_of_le_of_ne hle heq)) he hfurthest

/-- Climbing leaves a numeral as it is where no operator follows. -/
lemma ReadsNumeral.climb {tree : Expr}
    (h : ReadsNumeral (unary d) bareExpr tokens s before numeral fits tree)
    (hnext : (tokens[s.index + before + 1]?.map Token.kind).bind BinaryOp.ofToken? = none)
    (rank : Nat) :
    ReadsNumeral (exprFrom d rank) bareExpr tokens s before numeral fits tree := by
  rcases h.ok_or_error with
    ⟨hfits, a, s', hok, htree, hindex⟩ | ⟨hfits, e, s', herror, he, hfurthest⟩
  · rw [← hindex, nextKind_eq] at hnext
    have hrun : exprFrom d rank tokens s = (.ok a, s') := by
      rw [exprFrom, bind_run_ok hok, bind_run_ok (remaining_run tokens s'),
        climbUpTo_run_stop hnext]
    exact readsNumeral_ok hrun hfits htree hindex
  · exact readsNumeral_error (bind_run_error herror) hfits he hfurthest

end Numerals

/-- For digits with the value `v`, however many there are: a minus before them is accepted up to
`2 ^ 63`, in a pattern as the constant `-v`, in an expression as an operator or, at `2 ^ 63`, as the
least constant. Digits alone, and in a pattern digits after a plus, are accepted below `2 ^ 63` as
the constant `v`. All other digits are errors at their token. -/
theorem signed_numerals {numeral : Token} {v : Nat} (h : IsNumeral numeral v) (levels rank : Nat)
    (hlevels : 2 ≤ levels) (tokens : Array Token) (s : ParserState) :
    (∀ sign, tokens[s.index]? = some sign → tokens[s.index + 1]? = some numeral →
      (sign.kind = .minus →
        ((tokens[s.index + 2]?.map Token.kind).bind BinaryOp.ofToken? = none →
          ReadsNumeral ((deeper levels).exprFrom rank) bareExpr tokens s 1 numeral (v ≤ 2 ^ 63)
            (if v = 2 ^ 63 then .const default (.int (-(2 ^ 63)))
              else .unary default .minus (.const default (.int v)))) ∧
        ReadsNumeral (deeper levels).pattern barePattern tokens s 1 numeral (v ≤ 2 ^ 63)
          (.const default (.int (-v)))) ∧
      (sign.kind = .plus →
        ReadsNumeral (deeper levels).pattern barePattern tokens s 1 numeral (v < 2 ^ 63)
          (.const default (.int v)))) ∧
    (tokens[s.index]? = some numeral →
      ((tokens[s.index + 1]?.map Token.kind).bind BinaryOp.ofToken? = none →
        ReadsNumeral ((deeper levels).exprFrom rank) bareExpr tokens s 0 numeral (v < 2 ^ 63)
          (.const default (.int v))) ∧
      ReadsNumeral (deeper levels).pattern barePattern tokens s 0 numeral (v < 2 ^ 63)
        (.const default (.int v))) := by
  obtain ⟨n, rfl⟩ := Nat.exists_eq_add_of_le' hlevels
  have hoperand : (deeper (n + 1)).operand = unary (deeper n) := by
    rw [deeper_succ]
    rfl
  have hplus : constantOf .intLiteral numeral.value = _ := h.kind ▸ h.constantOf_eq
  rw [deeper_succ (n + 1)]
  refine ⟨fun sign hget hnumeral => ⟨fun hsign => ⟨fun hnext => ?_, ?_⟩, fun hsign => ?_⟩,
    fun hget => ⟨fun hnext => ?_, ?_⟩⟩
  · exact (readsNumeral_minus hoperand h hsign hget hnumeral).climb hnext rank
  · have hsign' : signOf? sign.kind = some (.intLiteral, true) := by
      rw [hsign]
      rfl
    exact readsNumeral_signed hsign' h.kind h.constantOf_neg hget hnumeral
  · have hsign' : signOf? sign.kind = some (.intLiteral, false) := by
      rw [hsign]
      rfl
    exact readsNumeral_signed hsign' h.kind hplus hget hnumeral
  · exact (readsNumeral_unary h hget).climb hnext rank
  · exact readsNumeral_pattern h hget

def numeralToken (digits : String) : Token := Token.made .intLiteral digits 1 2

/-- A minus before the digits. -/
def minusTokens (digits : String) : Array Token :=
  #[Token.made .minus "-" 1 1, numeralToken digits]

theorem signed_numerals_least :
    IsNumeral (numeralToken "7") 7 ∧
    (∃ e s', wholeExpr outermost (minusTokens "7") .initial = (.ok e, s') ∧
      bareExpr e = .unary default .minus (.const default (.int 7))) ∧
    IsNumeral (numeralToken "009223372036854775808") (2 ^ 63) ∧
    (∃ e s', wholeExpr outermost (minusTokens "009223372036854775808") .initial = (.ok e, s') ∧
      bareExpr e = .const default (.int (-(2 ^ 63)))) ∧
    (∃ p s', outermost.pattern (minusTokens "009223372036854775808") .initial = (.ok p, s') ∧
      barePattern p = .const default (.int (-(2 ^ 63)))) ∧
    (¬ ∃ p s', outermost.pattern #[numeralToken "009223372036854775808"] .initial = (.ok p, s')) ∧
    IsNumeral (numeralToken "9223372036854775809") (2 ^ 63 + 1) ∧
    (¬ ∃ e s', wholeExpr outermost (minusTokens "9223372036854775809") .initial = (.ok e, s')) ∧
    ¬ ∃ p s', outermost.pattern (minusTokens "9223372036854775809") .initial = (.ok p, s') := by
  have hseven : IsNumeral (numeralToken "7") 7 :=
    ⟨rfl, by decide, List.all_eq_true.mp (by decide +kernel), by decide +kernel⟩
  have hleast : IsNumeral (numeralToken "009223372036854775808") (2 ^ 63) :=
    ⟨rfl, by decide, List.all_eq_true.mp (by decide +kernel), by decide +kernel⟩
  have habove : IsNumeral (numeralToken "9223372036854775809") (2 ^ 63 + 1) :=
    ⟨rfl, by decide, List.all_eq_true.mp (by decide +kernel), by decide +kernel⟩
  have hsigned {digits : String} {v : Nat} (hnumeral : IsNumeral (numeralToken digits) v) :=
    ((signed_numerals hnumeral maxNesting anyRank (by decide) (minusTokens digits) .initial).1
      _ rfl rfl).1 rfl
  obtain ⟨-, halone⟩ := (signed_numerals hleast maxNesting anyRank (by decide)
    #[numeralToken "009223372036854775808"] .initial).2 rfl
  refine ⟨hseven, ?_, hleast, ?_, ?_, ?_, habove, ?_, ?_⟩
  · obtain ⟨e, s', hrun⟩ := ((hsigned hseven).1 rfl).accepts_iff.mpr (by decide)
    exact ⟨e, s', hrun, (((hsigned hseven).1 rfl).reads e s' hrun).1⟩
  · obtain ⟨e, s', hrun⟩ := ((hsigned hleast).1 rfl).accepts_iff.mpr (Nat.le_refl _)
    exact ⟨e, s', hrun, (((hsigned hleast).1 rfl).reads e s' hrun).1⟩
  · obtain ⟨p, s', hrun⟩ := (hsigned hleast).2.accepts_iff.mpr (Nat.le_refl _)
    exact ⟨p, s', hrun, ((hsigned hleast).2.reads p s' hrun).1⟩
  · exact fun hrun => Nat.lt_irrefl _ (halone.accepts_iff.mp hrun)
  · exact fun hrun => absurd (((hsigned habove).1 rfl).accepts_iff.mp hrun) (by decide)
  · exact fun hrun => absurd ((hsigned habove).2.accepts_iff.mp hrun) (by decide)

end Llama.Proofs
