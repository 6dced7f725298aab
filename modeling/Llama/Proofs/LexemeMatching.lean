import Llama.Token.Lexer
import Mathlib.Tactic.Common

/-!
# Lexemes and comments

The longest lexeme at the front of a text does not depend on what a comment behind it holds: two
texts that agree up to where a comment starts in one and blanks stand in the other have the same
lexemes in front, strings apart, whose text may hold anything.
-/

namespace Llama.Proofs

open Lexeme

variable {cs lexeme text : List Char} {kind : TokenKind} {c : Char}

lemma longest?_congr {cs' : List Char} (h : ∀ kind, ofKind? kind cs = ofKind? kind cs') :
    longest? cs = longest? cs' := by
  unfold longest?
  simp only [h]

/-- A match is at least as long as those before it. -/
lemma longer_cases (best : Option (TokenKind × List Char)) (kind : TokenKind)
    (found : Option (List Char)) :
    (longer best kind found = best ∨ ∃ text ∈ found, longer best kind found = some (kind, text)) ∧
      (∀ k t, best = some (k, t) →
        ∃ k' t', longer best kind found = some (k', t') ∧ t.length ≤ t'.length) ∧
      ∀ text ∈ found, ∃ k' t', longer best kind found = some (k', t') ∧
        text.length ≤ t'.length := by
  cases found with
  | none =>
    have hsame : longer best kind none = best := by cases best <;> rfl
    rw [hsame]
    exact ⟨.inl rfl, fun k t h => ⟨k, t, h, Nat.le_refl _⟩, nofun⟩
  | some text =>
    cases best with
    | none => simp [longer]
    | some b =>
      obtain ⟨k, t⟩ := b
      by_cases hlt : t.length < text.length
      · simp only [longer, if_pos hlt]
        refine ⟨.inr ⟨text, rfl, rfl⟩, fun k' t' h => ?_, fun text' h => ?_⟩
        · cases h
          exact ⟨kind, text, rfl, Nat.le_of_lt hlt⟩
        · cases h
          exact ⟨kind, text, rfl, Nat.le_refl _⟩
      · simp only [longer, if_neg hlt]
        refine ⟨.inl trivial, fun k' t' h => ?_, fun text' h => ?_⟩
        · cases h
          exact ⟨k, t, rfl, Nat.le_refl _⟩
        · cases h
          exact ⟨k, t, rfl, Nat.le_of_not_lt hlt⟩

lemma foldl_longer (cs : List Char) (kinds : List TokenKind)
    (best : Option (TokenKind × List Char)) :
    let last := kinds.foldl (fun best kind => longer best kind (ofKind? kind cs)) best
    (last = best ∨ ∃ kind text, ofKind? kind cs = some text ∧ last = some (kind, text)) ∧
      (∀ k t, best = some (k, t) → ∃ k' t', last = some (k', t') ∧ t.length ≤ t'.length) ∧
      ∀ kind ∈ kinds, ∀ text ∈ ofKind? kind cs,
        ∃ k' t', last = some (k', t') ∧ text.length ≤ t'.length := by
  induction kinds generalizing best with
  | nil => exact ⟨.inl rfl, fun k t h => ⟨k, t, h, Nat.le_refl _⟩, nofun⟩
  | cons kind kinds ih =>
    obtain ⟨hone, hkept, hbeaten⟩ := longer_cases best kind (ofKind? kind cs)
    obtain ⟨hlast, hkept', hbeaten'⟩ := ih (longer best kind (ofKind? kind cs))
    have hlonger : ∀ n, (∃ k t, longer best kind (ofKind? kind cs) = some (k, t) ∧ n ≤ t.length) →
        ∃ k t, (kind :: kinds).foldl (fun best kind => longer best kind (ofKind? kind cs)) best =
          some (k, t) ∧ n ≤ t.length := by
      rintro n ⟨k, t, hfirst, hn⟩
      obtain ⟨k', t', hrest, hle⟩ := hkept' k t hfirst
      exact ⟨k', t', hrest, Nat.le_trans hn hle⟩
    refine ⟨?_, fun k t h => hlonger _ (hkept k t h), ?_⟩
    · rcases hlast with hsame | hnew
      · rcases hone with hbest | ⟨text, htext, hfound⟩
        · exact .inl (hsame.trans hbest)
        · exact .inr ⟨kind, text, htext, hsame.trans hfound⟩
      · exact .inr hnew
    · intro kind' hmem text htext
      rcases List.mem_cons.mp hmem with rfl | hlater
      · exact hlonger _ (hbeaten text htext)
      · exact hbeaten' kind' hlater text htext

lemma ofKind?_of_longest? (h : longest? cs = some (kind, lexeme)) :
    ofKind? kind cs = some lexeme := by
  rcases (foldl_longer cs TokenKind.all none).1 with hnone | ⟨k, t, hmatch, hlast⟩
  · cases h.symm.trans hnone
  · cases h.symm.trans hlast
    exact hmatch

lemma length_le_of_longest? {kind' : TokenKind} (h : longest? cs = some (kind, lexeme))
    (hmatch : ofKind? kind' cs = some text) : text.length ≤ lexeme.length := by
  obtain ⟨k, t, hlast, hle⟩ :=
    (foldl_longer cs TokenKind.all none).2.2 kind' (TokenKind.mem_all kind') text hmatch
  cases h.symm.trans hlast
  exact hle

/-! ### Texts that agree up to a comment -/

/-- Whether a comment starts at the front of a text. -/
def startsComment : List Char → Bool
  | '-' :: '-' :: _ | '(' :: '*' :: _ => true
  | _ => false

/-- Two texts agree up to where a comment starts in the first, if anywhere, and blanks stand in
its place in the second. -/
inductive Veiled : List Char → List Char → Prop
  | nil : Veiled [] []
  | keep (c : Char) {cs ds : List Char} : Veiled cs ds → Veiled (c :: cs) (c :: ds)
  | line (cs ds : List Char) : Veiled ('-' :: '-' :: cs) (' ' :: ' ' :: ds)
  | block (cs ds : List Char) : Veiled ('(' :: '*' :: cs) (' ' :: ' ' :: ds)

section

variable {cs ds : List Char}

/-- A class of characters without those that start comments or replace them. -/
structure Unveiled (p : Char → Bool) : Prop where
  space : p ' ' = false
  dash : p '-' = false
  parenthesis : p '(' = false

lemma unveiled_isDigit : Unveiled Char.isDigit := ⟨rfl, rfl, rfl⟩

lemma unveiled_isNameChar : Unveiled isNameChar := ⟨by decide, by decide, by decide⟩

lemma Veiled.takeWhile {p : Char → Bool} (hp : Unveiled p) (h : Veiled cs ds) :
    cs.takeWhile p = ds.takeWhile p ∧
      Veiled (cs.drop (cs.takeWhile p).length) (ds.drop (ds.takeWhile p).length) := by
  induction h with
  | nil => exact ⟨rfl, .nil⟩
  | keep c h ih =>
    cases hc : p c with
    | true => simpa [List.takeWhile_cons, hc] using ih
    | false => simpa [List.takeWhile_cons, hc] using h.keep c
  | line cs ds => simpa [List.takeWhile_cons, hp.space, hp.dash] using .line cs ds
  | block cs ds => simpa [List.takeWhile_cons, hp.space, hp.parenthesis] using .block cs ds

lemma Veiled.digits? (h : Veiled cs ds) : digits? cs = digits? ds := by
  unfold Lexeme.digits?
  rw [(h.takeWhile unveiled_isDigit).1]

lemma Veiled.exponent (h : Veiled cs ds) : exponent cs = exponent ds := by
  cases h with
  | nil => rfl
  | line | block => rfl
  | keep mark h =>
    simp only [Lexeme.exponent]
    by_cases hmark : (mark = 'e' || mark = 'E') = true
    · rw [if_pos hmark, if_pos hmark]
      cases h with
      | nil => rfl
      | line | block => rfl
      | keep sign h =>
        have hall := (h.keep sign).digits?
        simp only [h.digits?, hall]
    · rw [if_neg hmark, if_neg hmark]

lemma digits?_eq_some {digits : List Char} (h : digits? cs = some digits) :
    digits = cs.takeWhile Char.isDigit ∧ digits ≠ [] := by
  unfold Lexeme.digits? at h
  split at h
  · cases h
  · next hne =>
    cases h
    exact ⟨rfl, fun hnil => hne (by rw [hnil]; rfl)⟩

lemma float?_eq_some (h : float? cs = some lexeme) :
    ∃ whole ds fraction, digits? cs = some whole ∧ cs.drop whole.length = '.' :: ds ∧
      digits? ds = some fraction ∧
      lexeme = whole ++ '.' :: fraction ++ exponent (ds.drop fraction.length) := by
  unfold Lexeme.float? at h
  split at h
  next => cases h
  next whole hwhole =>
    split at h
    next ds hpoint =>
      split at h
      next fraction hfraction =>
        cases h
        exact ⟨whole, ds, fraction, hwhole, hpoint, hfraction, rfl⟩
      next => cases h
    next => cases h

/-- An exponent that is not empty is a mark, perhaps a sign, and digits. -/
lemma exponent_cases (cs : List Char) :
    exponent cs = [] ∨ ∃ mark sign ds run, (mark = 'e' ∨ mark = 'E') ∧
      sign ∈ [[], ['+'], ['-']] ∧ cs = mark :: (sign ++ ds) ∧ digits? ds = some run ∧
        exponent cs = mark :: (sign ++ run) := by
  unfold Lexeme.exponent
  split
  next mark cs =>
    split
    next hmark =>
      simp only [Bool.or_eq_true, decide_eq_true_eq] at hmark
      split
      next sign ds =>
        split
        next hsign =>
          simp only [Bool.or_eq_true, decide_eq_true_eq] at hsign
          split
          next run hrun =>
            exact .inr ⟨mark, [sign], ds, run, hmark, by simpa using hsign, rfl, hrun, rfl⟩
          next => exact .inl rfl
        next =>
          split
          next run hrun => exact .inr ⟨mark, [], _, run, hmark, by simp, rfl, hrun, rfl⟩
          next => exact .inl rfl
      next => exact .inl rfl
    next => exact .inl rfl
  next => exact .inl rfl

lemma Veiled.drop_digits {digits : List Char} (h : Veiled cs ds)
    (hdigits : Lexeme.digits? ds = some digits) :
    Veiled (cs.drop digits.length) (ds.drop digits.length) := by
  obtain ⟨hsame, hrest⟩ := h.takeWhile unveiled_isDigit
  rw [hsame] at hrest
  rw [(digits?_eq_some hdigits).1]
  exact hrest

lemma Veiled.float? (h : Veiled cs ds) : float? cs = float? ds := by
  simp only [Lexeme.float?, h.digits?]
  cases hwhole : Lexeme.digits? ds with
  | none => rfl
  | some whole =>
    have hrest := h.drop_digits hwhole
    dsimp only
    generalize cs.drop whole.length = cs', ds.drop whole.length = ds' at hrest ⊢
    cases hrest with
    | nil => rfl
    | line | block => rfl
    | keep c hrest =>
      by_cases hc : c = '.'
      · subst hc
        simp only [hrest.digits?]
        cases hfraction : Lexeme.digits? _ with
        | none => rfl
        | some fraction => simp only [(hrest.drop_digits hfraction).exponent]
      · simp [hc]

lemma Veiled.isPrefixOf (h : Veiled cs ds) (htext : ∀ c ∈ text, c ≠ ' ' ∧ c ≠ '-' ∧ c ≠ '(') :
    text.isPrefixOf cs = text.isPrefixOf ds := by
  induction text generalizing cs ds with
  | nil => simp
  | cons c text ih =>
    obtain ⟨hc, hrest⟩ := List.forall_mem_cons.mp htext
    cases h with
    | nil => rfl
    | keep d h => simp only [List.isPrefixOf_cons_cons, ih h hrest]
    | line | block =>
      obtain ⟨hspace, hdash, hparenthesis⟩ := hc
      simp only [List.isPrefixOf_cons_cons, beq_eq_false_iff_ne.mpr hspace,
        beq_eq_false_iff_ne.mpr hdash, beq_eq_false_iff_ne.mpr hparenthesis, Bool.false_and]

/-- The text of a character literal: a plain character, an escape or a code between quotes. -/
inductive CharLexeme : List Char → Prop
  | plain (c : Char) (hquote : c ≠ '\'') (hescape : c ≠ '\\') (hline : c ≠ '\n') :
      CharLexeme ['\'', c, '\'']
  | escape (c : Char) (hline : c ≠ '\n') : CharLexeme ['\'', '\\', c, '\'']
  | code (a b : Char) (ha : Text.isHexDigit a = true) (hb : Text.isHexDigit b = true) :
      CharLexeme ['\'', '\\', 'x', a, b, '\'']

lemma char?_eq_some_iff :
    char? cs = some lexeme ↔ CharLexeme lexeme ∧ ∃ rest, cs = lexeme ++ rest := by
  constructor
  · intro h
    unfold Lexeme.char? at h
    split at h
    next c rest =>
      split at h
      next => cases h
      next hline =>
        cases h
        exact ⟨.escape c hline, rest, rfl⟩
    next a b rest _ =>
      split at h
      next hhex =>
        cases h
        rw [Bool.and_eq_true] at hhex
        exact ⟨.code a b hhex.1 hhex.2, rest, rfl⟩
      next => cases h
    next c rest _ =>
      split at h
      next => cases h
      next hplain =>
        cases h
        simp only [Bool.or_eq_true, decide_eq_true_eq, not_or] at hplain
        exact ⟨.plain c hplain.1.1 hplain.1.2 hplain.2, rest, rfl⟩
    next => cases h
  · rintro ⟨hlexeme, rest, rfl⟩
    cases hlexeme with
    | plain c hquote hescape hline => simp [Lexeme.char?, hquote, hescape, hline]
    | escape c hline => simp [Lexeme.char?, hline]
    | code a b ha hb =>
      have hquote : a ≠ '\'' := by rintro rfl; cases ha
      have hrun := Lexeme.char?.eq_2 a b rest hquote
      rw [ha, hb] at hrun
      exact hrun

/-- A comment is too long to stand before a quote as a single character. -/
lemma Veiled.before_quote (h : Veiled cs ds) :
    (∃ rest, cs = c :: '\'' :: rest) ↔ ∃ rest, ds = c :: '\'' :: rest := by
  constructor
  · rintro ⟨rest, rfl⟩
    cases h with
    | keep _ h => cases h with
      | keep _ _ => exact ⟨_, rfl⟩
  · rintro ⟨rest, rfl⟩
    cases h with
    | keep _ h => cases h with
      | keep _ _ => exact ⟨_, rfl⟩

/-- The characters of `front` neither start comments nor replace them. -/
lemma Veiled.front_quote {front : List Char} {d : Char}
    (hfront : ∀ c ∈ front, c ≠ ' ' ∧ c ≠ '-' ∧ c ≠ '(') (h : Veiled cs ds) :
    (∃ rest, cs = front ++ d :: '\'' :: rest) ↔ ∃ rest, ds = front ++ d :: '\'' :: rest := by
  induction front generalizing cs ds with
  | nil => exact h.before_quote
  | cons c front ih =>
    obtain ⟨⟨hspace, hdash, hparenthesis⟩, hrest⟩ := List.forall_mem_cons.mp hfront
    cases h with
    | nil => simp
    | keep e h => simp only [List.cons_append, List.cons.injEq, exists_and_left, ih hrest h]
    | line | block => simp [hspace.symm, hdash.symm, hparenthesis.symm]

lemma isHexDigit_ne {a : Char} (h : Text.isHexDigit a = true) : a ≠ ' ' ∧ a ≠ '-' ∧ a ≠ '(' := by
  refine ⟨?_, ?_, ?_⟩ <;> (rintro rfl; cases h)

lemma Veiled.charLexeme (h : Veiled cs ds) (hlexeme : CharLexeme lexeme) :
    (∃ rest, c :: cs = lexeme ++ rest) ↔ ∃ rest, c :: ds = lexeme ++ rest := by
  cases hlexeme with
  | plain d =>
    simpa using fun _ => h.before_quote
  | escape d =>
    have hfront : ∀ c ∈ ['\\'], c ≠ ' ' ∧ c ≠ '-' ∧ c ≠ '(' := by simp
    simpa using fun _ => h.front_quote hfront
  | code a b ha =>
    have hfront : ∀ c ∈ ['\\', 'x', a], c ≠ ' ' ∧ c ≠ '-' ∧ c ≠ '(' := by
      simp [isHexDigit_ne ha]
    simpa using fun _ => h.front_quote hfront

lemma Veiled.char? (c : Char) (h : Veiled cs ds) : char? (c :: cs) = char? (c :: ds) := by
  refine Option.ext fun lexeme => ?_
  rw [char?_eq_some_iff, char?_eq_some_iff]
  exact and_congr_right fun hlexeme => h.charLexeme hlexeme

/-- Among the ASCII characters, the alphanumeric ones are letters and digits. -/
lemma isAlphanumeric_ascii (h : c.toNat < 128) : Text.isAlphanumeric c = c.isAlphanum := by
  have hlater : ∀ range ∈ Text.alphanumericRanges.drop 3, 128 ≤ range.1 := by decide +kernel
  have hfirst : ∀ n < 128, Text.CodePoints.contains (Text.alphanumericRanges.take 3)
      (Char.ofNat n) = (Char.ofNat n).isAlphanum := by decide +kernel
  have hascii := hfirst c.toNat h
  rw [Char.ofNat_toNat] at hascii
  have hnone : Text.CodePoints.contains (Text.alphanumericRanges.drop 3) c = false := by
    rw [Bool.eq_false_iff]
    intro hc
    obtain ⟨range, hmem, hle, -⟩ := Text.CodePoints.contains_iff.mp hc
    have hge := hlater range hmem
    omega
  have hsplit : Text.isAlphanumeric c =
      (Text.CodePoints.contains (Text.alphanumericRanges.take 3) c ||
        Text.CodePoints.contains (Text.alphanumericRanges.drop 3) c) := by
    unfold Text.isAlphanumeric Text.CodePoints.contains
    rw [← List.any_append, List.take_append_drop]
  rw [hsplit, hnone, hascii, Bool.or_false]

lemma isLower_iff : c.isLower = true ↔ 97 ≤ c.toNat ∧ c.toNat ≤ 122 :=
  Bool.and_eq_true_iff.trans (and_congr decide_eq_true_iff decide_eq_true_iff)

lemma isUpper_iff : c.isUpper = true ↔ 65 ≤ c.toNat ∧ c.toNat ≤ 90 :=
  decide_eq_true_iff

lemma isAlpha_iff : c.isAlpha = true ↔ c.isUpper = true ∨ c.isLower = true :=
  Bool.or_eq_true_iff

/-- Among the ASCII characters, those after which a quote belongs to a name are those of names. -/
lemma continuesName_ascii (h : c.toNat < 128) : Comment.continuesName (some c) = isNameChar c := by
  rw [Comment.continuesName, isAlphanumeric_ascii h, isNameChar]

/-- The characters of a keyword or symbol: after the first none starts a comment, replaces one or
opens a literal, and a last one that may be part of a name is that of a keyword. -/
def isSpelling : List Char → Bool
  | c :: rest =>
    c != '"' && c != '\'' && rest.all (fun d => !(['"', '\'', ' ', '-', '('].contains d)) &&
      ((c.isLower && rest.all isNameChar) ||
        (c :: rest).getLast?.all fun d => decide (d.toNat < 128) && !isNameChar d)
  | [] => false

lemma isSpelling_text {text : String} (h : kind.text = some text) :
    isSpelling text.toList = true := by
  have hall : (TokenKind.all.all fun kind => kind.text.all fun text =>
      isSpelling text.toList) = true := by decide +kernel
  have hkind := List.all_eq_true.mp hall kind (TokenKind.mem_all kind)
  rw [h] at hkind
  exact hkind

lemma exists_of_isSpelling (h : isSpelling text = true) :
    ∃ c rest, text = c :: rest ∧ c ≠ '"' ∧ c ≠ '\'' ∧
      (∀ d ∈ rest, d ∉ ['"', '\'', ' ', '-', '(']) ∧
      ((c.isLower = true ∧ ∀ d ∈ rest, isNameChar d = true) ∨
        Comment.continuesName text.getLast? = false) := by
  cases text with
  | nil => cases h
  | cons c rest =>
    simp only [isSpelling, Bool.and_eq_true, Bool.or_eq_true, bne_iff_ne, List.all_eq_true] at h
    obtain ⟨⟨⟨hquote, hprime⟩, hrest⟩, hend⟩ := h
    refine ⟨c, rest, rfl, hquote, hprime, fun d hd => by simpa using hrest d hd, ?_⟩
    refine hend.imp id fun hlast => ?_
    rw [List.getLast?_eq_some_getLast (List.cons_ne_nil c rest)] at hlast ⊢
    simp only [Option.all_some, Bool.and_eq_true, decide_eq_true_eq, Bool.not_eq_true'] at hlast
    rw [continuesName_ascii hlast.1]
    exact hlast.2

lemma ofKind?_of_text {text : String} (h : kind.text = some text) (cs : List Char) :
    ofKind? kind cs = if text.toList.isPrefixOf cs then some text.toList else none := by
  unfold Lexeme.ofKind?
  split <;> simp_all [TokenKind.text]

lemma eq_of_ofKind?_text {text : String} (htext : kind.text = some text)
    (h : ofKind? kind cs = some lexeme) : lexeme = text.toList ∧ ∃ rest, cs = lexeme ++ rest := by
  rw [ofKind?_of_text htext] at h
  split at h
  next hfront =>
    cases h
    obtain ⟨rest, hcs⟩ := List.isPrefixOf_iff_prefix.mp hfront
    exact ⟨rfl, rest, hcs.symm⟩
  next => cases h

/-- The kinds without a spelling of their own. -/
lemma kind_of_text_eq_none (h : kind.text = none) :
    kind = .genid ∨ kind = .conid ∨ kind = .intLiteral ∨ kind = .floatLiteral ∨
      kind = .charLiteral ∨ kind = .stringLiteral := by
  cases kind <;> simp [TokenKind.text] at h ⊢

lemma Veiled.name? (first : Char → Bool) (c : Char) (h : Veiled cs ds) :
    name? first (c :: cs) = name? first (c :: ds) := by
  simp only [Lexeme.name?, (h.takeWhile unveiled_isNameChar).1]

lemma Veiled.ofKind? (hc : c ≠ '"') (h : Veiled cs ds) (kind : TokenKind) :
    ofKind? kind (c :: cs) = ofKind? kind (c :: ds) := by
  cases htext : kind.text with
  | some text =>
    obtain ⟨d, rest, hspelling, -, -, hrest, -⟩ := exists_of_isSpelling (isSpelling_text htext)
    have htail : ∀ e ∈ rest, e ≠ ' ' ∧ e ≠ '-' ∧ e ≠ '(' := by
      intro e he
      have hnone := hrest e he
      simp only [List.mem_cons, not_or] at hnone
      exact ⟨hnone.2.2.1, hnone.2.2.2.1, hnone.2.2.2.2.1⟩
    rw [ofKind?_of_text htext, ofKind?_of_text htext, hspelling, List.isPrefixOf_cons_cons,
      List.isPrefixOf_cons_cons, h.isPrefixOf htail]
  | none =>
    rcases kind_of_text_eq_none htext with rfl | rfl | rfl | rfl | rfl | rfl
    · exact h.name? _ c
    · exact h.name? _ c
    · exact (h.keep c).digits?
    · exact (h.keep c).float?
    · exact h.char? c
    · simp [Lexeme.ofKind?, Lexeme.string?, hc]

end

end Llama.Proofs
