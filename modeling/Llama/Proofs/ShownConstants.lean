import Llama.Proofs.LiteralDecoding
import Llama.Proofs.SignedNumerals

/-!
# Constants that are shown as literals

A character, a string or an integer is shown as a text that the lexer cuts as one literal, and the
literal has the constant as its value. The exceptions are characters that are shown by their code
points, which no literal can have, and integers below zero or out of range.
-/

namespace Llama.Proofs

open Lexeme Token Text
open scoped Computability

/-- The text of the constant is a single literal of the given kind, with the constant as its
value. -/
def ReadsBack (kind : TokenKind) (value : Const) : Prop :=
  ∃ token, lex value.text = .ok [token] ∧ word token = (kind, value.text) ∧
    Parser.constantOf token.kind token.value = .ok value

lemma readsBack_iff {kind : TokenKind} (value : Const) (hgenid : kind ≠ .genid)
    (hconid : kind ≠ .conid) :
    ReadsBack kind value ↔
      value.text.toList ∈ lexemesOf kind ∧ Parser.constantOf kind value.text = .ok value := by
  constructor
  · rintro ⟨token, hlex, hword, hvalue⟩
    obtain ⟨hkind, htext⟩ := Prod.mk.inj hword
    have hspelled := (spelled_of_lex hlex List.mem_cons_self).1
    rw [hword] at hspelled
    rw [hkind, htext] at hvalue
    exact ⟨hspelled, hvalue⟩
  · rintro ⟨hmem, hvalue⟩
    have hspelled : Spelled (kind, value.text) :=
      ⟨hmem, fun hname => (hname.elim hgenid hconid).elim⟩
    obtain ⟨tokens, hlex, hwords⟩ :=
      exists_lex_of_spelled [(kind, value.text)] (by simpa using hspelled)
    obtain ⟨token, rfl, hword⟩ := List.map_eq_singleton_iff.mp hwords
    obtain ⟨hkind, htext⟩ := Prod.mk.inj hword
    refine ⟨token, by simpa using hlex, hword, ?_⟩
    rw [hkind, htext]
    exact hvalue

section Quoted

variable {quote : Char}

/-- A character is shown by an escape that stands for it, as itself, or by its code point. -/
lemma escape_cases (hquote : quote = '\'' ∨ quote = '"') (c : Char) :
    (∃ d, escape quote c = ['\\', d] ∧ d ≠ 'x' ∧ d ≠ '\n' ∧ Literal.simpleEscape? d = some c) ∨
    (escape quote c = [c] ∧ c ≠ quote ∧ c ≠ '\\' ∧ c ≠ '\n') ∨
    escape quote c = codePointEscape c := by
  unfold escape
  split
  next h =>
    subst h
    exact .inl ⟨'0', rfl, by decide, by decide, rfl⟩
  split
  next h =>
    subst h
    exact .inl ⟨'t', rfl, by decide, by decide, rfl⟩
  split
  next h =>
    subst h
    exact .inl ⟨'r', rfl, by decide, by decide, rfl⟩
  split
  next h =>
    subst h
    exact .inl ⟨'n', rfl, by decide, by decide, rfl⟩
  next hline =>
    split
    next h =>
      have hself : c = '\'' ∨ c = '"' ∨ c = '\\' := by
        simp only [Bool.or_eq_true, decide_eq_true_eq] at h
        rcases hquote with rfl | rfl <;> tauto
      refine .inl ⟨c, rfl, ?_⟩
      rcases hself with rfl | rfl | rfl <;> decide
    next h =>
      simp only [Bool.or_eq_true, decide_eq_true_eq, not_or] at h
      split
      next => exact .inr (.inl ⟨rfl, h.1, h.2, hline⟩)
      next => exact .inr (.inr rfl)

/-- The decoder reads back exactly what is shown without code points. -/
lemma decode?_escaped (hquote : quote = '\'' ∨ quote = '"') (cs : List Char) :
    Literal.decode? (cs.flatMap (escape quote)) = some cs ↔
      ∀ c ∈ cs, escape quote c ≠ codePointEscape c := by
  induction cs with
  | nil => simp [decode?_nil]
  | cons c cs ih =>
    rw [List.flatMap_cons, List.forall_mem_cons, ← ih]
    rcases escape_cases hquote c with ⟨d, hshown, hx, hline, hd⟩ | ⟨hshown, -, hc, -⟩ | hshown
    · rw [hshown, List.cons_append, List.singleton_append, decode?_escape hx hline, hd]
      simp [codePointEscape]
    · rw [hshown, List.singleton_append, decode?_plain hc]
      simp [codePointEscape]
    · rw [hshown]
      have hnone : Literal.decode? (codePointEscape c ++ cs.flatMap (escape quote)) = none :=
        decode?_escape (by decide) (by decide)
      simp [hnone]

lemma escape_mem_quotedChar (hquote : quote = '\'' ∨ quote = '"') {c : Char}
    (h : escape quote c ≠ codePointEscape c) : escape quote c ∈ quotedChar quote := by
  rcases escape_cases hquote c with ⟨d, hshown, -, hline, -⟩ | ⟨hshown, hc⟩ | hshown
  · rw [hshown]
    exact mem_quotedChar.mpr (.inr (.inl ⟨d, hline, rfl⟩))
  · rw [hshown]
    exact mem_quotedChar.mpr (.inl ⟨c, hc.1, hc.2.1, hc.2.2, rfl⟩)
  · exact absurd hshown h

lemma toList_quoted (cs : List Char) :
    (String.ofList (quoted quote cs)).toList = quote :: (cs.flatMap (escape quote) ++ [quote]) :=
  String.toList_ofList

/-- What is shown between quotes is made of characters that may stand there. -/
lemma escaped_mem_star (hquote : quote = '\'' ∨ quote = '"') {cs : List Char}
    (h : ∀ c ∈ cs, escape quote c ≠ codePointEscape c) :
    cs.flatMap (escape quote) ∈ (quotedChar quote)∗ := by
  refine Language.mem_kstar.mpr ⟨cs.map (escape quote), List.flatMap_def, fun part hpart => ?_⟩
  obtain ⟨c, hc, rfl⟩ := List.mem_map.mp hpart
  exact escape_mem_quotedChar hquote (h c hc)

end Quoted

lemma char?_quotedChar (c : Char) :
    Literal.char? (Text.quotedChar c) = some c ↔ escape '\'' c ≠ codePointEscape c := by
  have hdecode := decode?_escaped (.inl rfl) [c]
  rw [List.forall_mem_singleton] at hdecode
  rw [Literal.char?, Text.quotedChar, toList_quoted, body?_quoted, Option.bind_some, ← hdecode]
  split
  next d hd => rw [hd, Option.some_inj, Option.some_inj, List.singleton_inj]
  next hother => exact iff_of_false (by simp) (hother c)

lemma string?_quotedString (s : String) :
    Literal.string? (Text.quotedString s) = some s ↔
      ∀ c ∈ s.toList, escape '"' c ≠ codePointEscape c := by
  rw [Literal.string?, Text.quotedString, toList_quoted, body?_quoted, Option.bind_some,
    ← decode?_escaped (.inr rfl), Option.map_eq_some_iff]
  constructor
  · rintro ⟨cs, hcs, rfl⟩
    rw [hcs, String.toList_ofList]
  · intro h
    exact ⟨s.toList, h, String.ofList_toList⟩

lemma readsBack_char (c : Char) :
    ReadsBack .charLiteral (.char c) ↔ escape '\'' c ≠ codePointEscape c := by
  have hvalue : Parser.constantOf .charLiteral (Const.char c).text = .ok (.char c) ↔
      Literal.char? (Text.quotedChar c) = some c := by
    rw [Parser.constantOf, Const.text]
    cases Literal.char? (Text.quotedChar c) <;> simp
  rw [readsBack_iff _ (by decide) (by decide), hvalue, char?_quotedChar]
  refine and_iff_right_of_imp fun h => ?_
  have hbody := escape_mem_quotedChar (.inl rfl) h
  have htext : (Const.char c).text.toList = "'".toList ++ (escape '\'' c ++ "'".toList) := by
    rw [Const.text, Text.quotedChar, toList_quoted, List.flatMap_singleton]
    rfl
  rw [htext]
  exact Language.append_mem_mul rfl (Language.append_mem_mul hbody rfl)

lemma readsBack_string (s : String) :
    ReadsBack .stringLiteral (.string s) ↔ ∀ c ∈ s.toList, escape '"' c ≠ codePointEscape c := by
  have hvalue : Parser.constantOf .stringLiteral (Const.string s).text = .ok (.string s) ↔
      Literal.string? (Text.quotedString s) = some s := by
    rw [Parser.constantOf, Const.text]
    cases Literal.string? (Text.quotedString s) <;> simp
  rw [readsBack_iff _ (by decide) (by decide), hvalue, string?_quotedString]
  refine and_iff_right_of_imp fun h => ?_
  have hbody := escaped_mem_star (.inr rfl) h
  have htext : (Const.string s).text.toList =
      "\"".toList ++ (s.toList.flatMap (escape '"') ++ "\"".toList) := toList_quoted s.toList
  rw [htext]
  exact Language.append_mem_mul rfl (Language.append_mem_mul hbody rfl)

lemma toList_text_nat (n : Nat) : (Const.int n).text.toList = Nat.toDigits 10 n :=
  Nat.toList_repr

lemma isDigit_of_mem_text {n : Nat} {c : Char} (h : c ∈ (Const.int n).text.toList) :
    c.isDigit = true := by
  rw [toList_text_nat] at h
  exact Nat.isDigit_of_mem_toDigits (by decide) (by decide) h

lemma text_nat_ne_nil (n : Nat) : (Const.int n).text.toList ≠ [] := by
  rw [toList_text_nat]
  exact Nat.toDigits_ne_nil

/-- A natural number is shown as a numeral with its value. -/
lemma isNumeral_text (n : Nat) (span : Span) :
    IsNumeral (ofSpan .intLiteral (Const.int n).text span) n where
  kind := rfl
  nonempty hempty := text_nat_ne_nil n (congrArg String.toList hempty)
  digits _ := isDigit_of_mem_text
  worth := by
    have hvalue : Text.ofDigits (Nat.toDigits 10 n) = n :=
      Nat.ofDigitChars_toDigits (by decide) (by decide)
    rw [← ofDigits_eq_decimal]
    exact (congrArg Text.ofDigits (toList_text_nat n)).trans hvalue

lemma readsBack_int (n : Int) : ReadsBack .intLiteral (.int n) ↔ 0 ≤ n ∧ n < 2 ^ 63 := by
  rw [readsBack_iff _ (by decide) (by decide)]
  cases n with
  | ofNat n =>
    have hdigits : (Const.int n).text.toList ∈ lexemesOf .intLiteral :=
      mem_digitRun.mpr ⟨text_nat_ne_nil n, fun _ => isDigit_of_mem_text⟩
    have hvalue : Parser.constantOf .intLiteral (Const.int n).text =
        if n < 2 ^ 63 then .ok (.int n) else .error "integer literal out of range" :=
      (isNumeral_text n ⟨⟨0, 0⟩, ⟨0, 0⟩⟩).constantOf_eq
    rw [Int.ofNat_eq_natCast, hvalue, and_iff_right hdigits]
    split
    next hn => exact iff_of_true rfl ⟨Int.natCast_nonneg n, by omega⟩
    next hn => exact iff_of_false (by simp) (by omega)
  | negSucc n =>
    -- The text starts with a dash, which is a token of its own.
    refine iff_of_false ?_ (by omega)
    rintro ⟨hdigits, -⟩
    have htext : (Const.int (.negSucc n)).text.toList = '-' :: (Nat.repr (n + 1)).toList :=
      String.toList_append
    have hdash := (mem_digitRun.mp hdigits).2 '-' (by rw [htext]; exact List.mem_cons_self)
    cases hdash

/-- A character or a string is shown as a single literal that has it as its value exactly if none
of its characters is shown by a code point, and an integer exactly if it is at least zero and less
than `2 ^ 63`. -/
theorem constants_read_back :
    (∀ c : Char, ReadsBack .charLiteral (.char c) ↔ escape '\'' c ≠ codePointEscape c) ∧
    (∀ s : String, ReadsBack .stringLiteral (.string s) ↔
      ∀ c ∈ s.toList, escape '"' c ≠ codePointEscape c) ∧
    ∀ n : Int, ReadsBack .intLiteral (.int n) ↔ 0 ≤ n ∧ n < 2 ^ 63 :=
  ⟨readsBack_char, readsBack_string, readsBack_int⟩

/-- Both quotes, a backslash, marks of comments, controls, and a letter of two bytes. -/
def markedString : String := "\\\"'--(*\n\x00é"

theorem constants_read_back_markedString :
    (∀ c ∈ markedString.toList, escape '"' c ≠ codePointEscape c) ∧
    ReadsBack .stringLiteral (.string markedString) ∧ ReadsBack .charLiteral (.char '\'') ∧
    ¬ReadsBack .charLiteral (.char '\x07') ∧ ReadsBack .intLiteral (.int (2 ^ 63 - 1)) := by
  have hall : (markedString.toList.all fun c => escape '"' c != codePointEscape c) = true := by
    decide +kernel
  have hplain : ∀ c ∈ markedString.toList, escape '"' c ≠ codePointEscape c :=
    fun c hc => bne_iff_ne.mp (List.all_eq_true.mp hall c hc)
  obtain ⟨hchar, hstring, hint⟩ := constants_read_back
  refine ⟨hplain, (hstring markedString).mpr hplain, (hchar '\'').mpr (by decide), ?_,
    (hint _).mpr (by decide)⟩
  exact fun h => (hchar '\x07').mp h (by decide +kernel)

end Llama.Proofs
