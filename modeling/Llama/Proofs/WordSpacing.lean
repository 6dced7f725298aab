import Llama.Proofs.TypeText
import Mathlib.Computability.Language

/-!
# Tokens with blanks between them

The texts of the tokens of one kind form a regular language. A text of such a language is found as
a lexeme of its kind before a blank or the end of the input, unless it is the spelling of a keyword
that is taken for a name, and blanking leaves it as it is where it does not follow a name directly.
So the words of tokens can be written with single blanks between them and are cut out again.
-/

namespace Llama.Proofs

open Lexeme Comment Token
open scoped Computability

variable {c : Char} {w : Word}

/-- One character that satisfies the condition. -/
def anyOf (p : Char → Bool) : Language Char := {text | ∃ c, p c = true ∧ text = [c]}

/-- Only the given text. -/
def exactly (text : String) : Language Char := {text.toList}

def digitRun : Language Char := anyOf Char.isDigit * (anyOf Char.isDigit)∗

/-- A backslash with a code of two hexadecimal digits or with any character of the line. -/
def escapeSequence : Language Char :=
  exactly "\\" *
    (exactly "x" * (anyOf Text.isHexDigit * anyOf Text.isHexDigit) + anyOf fun c => c != '\n')

/-- What stands for one character between two quotes. -/
def quotedChar (quote : Char) : Language Char :=
  (anyOf fun c => c != quote && c != '\\' && c != '\n') + escapeSequence

/-- The mark of an exponent, perhaps a sign, and digits. -/
def exponentPart : Language Char :=
  anyOf (fun c => c == 'e' || c == 'E') *
    ((1 + anyOf fun c => c == '+' || c == '-') * digitRun)

/-- A name whose first character is in the given class. -/
def nameLexemes (first : Char → Bool) : Language Char := anyOf first * (anyOf isNameChar)∗

def floatLexemes : Language Char :=
  digitRun * (exactly "." * (digitRun * (1 + exponentPart)))

def charLexemes : Language Char := exactly "'" * (quotedChar '\'' * exactly "'")

def stringLexemes : Language Char := exactly "\"" * ((quotedChar '"')∗ * exactly "\"")

/-- The texts of a class of names or literals. Those of names contain the keywords. -/
def classLexemes : TokenKind → Language Char
  | .genid => nameLexemes Char.isLower
  | .conid => nameLexemes Char.isUpper
  | .intLiteral => digitRun
  | .floatLiteral => floatLexemes
  | .charLiteral => charLexemes
  | .stringLiteral => stringLexemes
  | _ => 0

/-- The texts of a kind of tokens. -/
def lexemesOf (kind : TokenKind) : Language Char :=
  match kind.text with
  | some spelling => exactly spelling
  | none => classLexemes kind

/-- The text is one of its kind and, if it is a name, not the spelling of another kind. -/
def Spelled (w : Word) : Prop :=
  w.2.toList ∈ lexemesOf w.1 ∧
    (w.1 = .genid ∨ w.1 = .conid → ∀ kind : TokenKind, kind.text ≠ some w.2)

section Languages

variable {p : Char → Bool} {l : Language Char} {text cs rest : List Char}

lemma mem_anyOf : text ∈ anyOf p ↔ ∃ c, p c = true ∧ text = [c] := Iff.rfl

lemma mem_anyOf_mul : text ∈ anyOf p * l ↔ ∃ c tail, text = c :: tail ∧ p c = true ∧ tail ∈ l := by
  rw [Language.mem_mul]
  constructor
  · rintro ⟨_, ⟨c, hc, rfl⟩, tail, htail, rfl⟩
    exact ⟨c, tail, rfl, hc, htail⟩
  · rintro ⟨c, tail, rfl, hc, htail⟩
    exact ⟨[c], ⟨c, hc, rfl⟩, tail, htail, rfl⟩

lemma mem_exactly_mul {front : String} :
    text ∈ exactly front * l ↔ ∃ tail, text = front.toList ++ tail ∧ tail ∈ l := by
  rw [Language.mem_mul]
  constructor
  · rintro ⟨_, rfl, tail, htail, rfl⟩
    exact ⟨tail, rfl, htail⟩
  · rintro ⟨tail, rfl, htail⟩
    exact ⟨front.toList, rfl, tail, htail, rfl⟩

lemma mem_star_anyOf : text ∈ (anyOf p)∗ ↔ ∀ c ∈ text, p c = true := by
  rw [Language.mem_kstar]
  constructor
  · rintro ⟨parts, rfl, hparts⟩ c hc
    obtain ⟨part, hpart, hmem⟩ := List.mem_flatten.mp hc
    obtain ⟨d, hd, rfl⟩ := hparts part hpart
    rw [List.mem_singleton.mp hmem]
    exact hd
  · intro h
    refine ⟨text.map fun c => [c], ?_, fun part hpart => ?_⟩
    · induction text with
      | nil => rfl
      | cons c text ih =>
        rw [List.map_cons, List.flatten_cons, ← ih fun d hd => h d (List.mem_cons_of_mem c hd)]
        rfl
    · obtain ⟨c, hc, rfl⟩ := List.mem_map.mp hpart
      exact ⟨c, h c hc, rfl⟩

lemma mem_digitRun : text ∈ digitRun ↔ text ≠ [] ∧ ∀ c ∈ text, c.isDigit = true := by
  rw [digitRun, mem_anyOf_mul]
  constructor
  · rintro ⟨c, tail, rfl, hc, htail⟩
    exact ⟨List.cons_ne_nil c tail, List.forall_mem_cons.mpr ⟨hc, mem_star_anyOf.mp htail⟩⟩
  · rintro ⟨hne, hall⟩
    obtain ⟨c, tail, rfl⟩ := List.exists_cons_of_ne_nil hne
    obtain ⟨hc, htail⟩ := List.forall_mem_cons.mp hall
    exact ⟨c, tail, rfl, hc, mem_star_anyOf.mpr htail⟩

lemma mem_quotedChar {quote : Char} :
    text ∈ quotedChar quote ↔
      (∃ c, c ≠ quote ∧ c ≠ '\\' ∧ c ≠ '\n' ∧ text = [c]) ∨
      (∃ c, c ≠ '\n' ∧ text = ['\\', c]) ∨
      ∃ a b, Text.isHexDigit a = true ∧ Text.isHexDigit b = true ∧ text = ['\\', 'x', a, b] := by
  rw [quotedChar, escapeSequence, Language.mem_add, mem_anyOf, mem_exactly_mul]
  simp only [Language.mem_add, mem_exactly_mul, mem_anyOf_mul, mem_anyOf, Bool.and_eq_true,
    bne_iff_ne]
  constructor
  · rintro (⟨c, hc, rfl⟩ | ⟨_, rfl, ⟨_, rfl, a, _, rfl, ha, b, hb, rfl⟩ | ⟨c, hc, rfl⟩⟩)
    · exact .inl ⟨c, hc.1.1, hc.1.2, hc.2, rfl⟩
    · exact .inr (.inr ⟨a, b, ha, hb, rfl⟩)
    · exact .inr (.inl ⟨c, hc, rfl⟩)
  · rintro (⟨c, hquote, hescape, hline, rfl⟩ | ⟨c, hc, rfl⟩ | ⟨a, b, ha, hb, rfl⟩)
    · exact .inl ⟨c, ⟨⟨hquote, hescape⟩, hline⟩, rfl⟩
    · exact .inr ⟨[c], rfl, .inr ⟨c, hc, rfl⟩⟩
    · exact .inr ⟨['x', a, b], rfl, .inl ⟨[a, b], rfl, a, [b], rfl, ha, b, hb, rfl⟩⟩

lemma mem_charLexemes : text ∈ charLexemes ↔ CharLexeme text := by
  rw [charLexemes, mem_exactly_mul]
  simp only [Language.mem_mul, mem_quotedChar]
  constructor
  · rintro ⟨_, rfl, body, hbody, _, rfl, rfl⟩
    rcases hbody with ⟨c, hquote, hescape, hline, rfl⟩ | ⟨c, hc, rfl⟩ | ⟨a, b, ha, hb, rfl⟩
    · exact .plain c hquote hescape hline
    · exact .escape c hc
    · exact .code a b ha hb
  · intro h
    cases h with
    | plain c hquote hescape hline =>
      exact ⟨_, rfl, [c], .inl ⟨c, hquote, hescape, hline, rfl⟩, _, rfl, rfl⟩
    | escape c hline => exact ⟨_, rfl, ['\\', c], .inr (.inl ⟨c, hline, rfl⟩), _, rfl, rfl⟩
    | code a b ha hb =>
      exact ⟨_, rfl, ['\\', 'x', a, b], .inr (.inr ⟨a, b, ha, hb, rfl⟩), _, rfl, rfl⟩

lemma append_mem_star {part : List Char} (hpart : part ∈ l) (htext : text ∈ l∗) :
    part ++ text ∈ l∗ := by
  obtain ⟨parts, rfl, hparts⟩ := Language.mem_kstar.mp htext
  exact Language.mem_kstar.mpr ⟨part :: parts, rfl, List.forall_mem_cons.mpr ⟨hpart, hparts⟩⟩

lemma stringBody?_keep (hquote : c ≠ '"') (hescape : c ≠ '\\') (hline : c ≠ '\n') :
    stringBody? (c :: cs) = (stringBody? cs).map (c :: ·) := by
  rw [stringBody?.eq_3 c cs (by simpa using hquote) (by simp [hescape])]
  simp [hescape, hline]

lemma stringBody?_escape (hline : c ≠ '\n') :
    stringBody? ('\\' :: c :: cs) = (stringBody? cs).map ('\\' :: c :: ·) := by
  rw [stringBody?, if_neg hline]

/-- Between its quotes a string literal is read to its end and no further. -/
lemma stringBody?_append (hbody : text ∈ (quotedChar '"')∗) (rest : List Char) :
    stringBody? (text ++ '"' :: rest) = some (text ++ ['"']) := by
  obtain ⟨parts, rfl, hparts⟩ := Language.mem_kstar.mp hbody
  clear hbody
  have hhex : ∀ {d : Char}, Text.isHexDigit d = true → d ≠ '"' ∧ d ≠ '\\' ∧ d ≠ '\n' := by
    intro d hd
    refine ⟨?_, ?_, ?_⟩ <;> (rintro rfl; cases hd)
  induction parts with
  | nil => rfl
  | cons part parts ih =>
    obtain ⟨hpart, hparts⟩ := List.forall_mem_cons.mp hparts
    have ih := ih hparts
    rw [List.flatten_cons, List.append_assoc]
    rcases mem_quotedChar.mp hpart with
      ⟨c, hquote, hescape, hline, rfl⟩ | ⟨c, hline, rfl⟩ | ⟨a, b, ha, hb, rfl⟩
    · rw [List.singleton_append, stringBody?_keep hquote hescape hline, ih]
      rfl
    · simp only [List.cons_append, List.nil_append]
      rw [stringBody?_escape hline, ih]
      rfl
    · -- Only the first character of a code is escaped; its digits stand for themselves.
      obtain ⟨ha₁, ha₂, ha₃⟩ := hhex ha
      obtain ⟨hb₁, hb₂, hb₃⟩ := hhex hb
      simp only [List.cons_append, List.nil_append]
      rw [stringBody?_escape (by decide), stringBody?_keep ha₁ ha₂ ha₃,
        stringBody?_keep hb₁ hb₂ hb₃, ih]
      rfl

lemma mem_star_of_stringBody? (h : stringBody? cs = some text) :
    ∃ body, body ∈ (quotedChar '"')∗ ∧ text = body ++ ['"'] := by
  fun_induction stringBody? cs generalizing text with
  | case1 cs =>
    cases h
    exact ⟨[], Language.nil_mem_kstar _, rfl⟩
  | case2 cs => cases h
  | case3 c cs hc ih =>
    obtain ⟨later, hlater, rfl⟩ := Option.map_eq_some_iff.mp h
    obtain ⟨body, hbody, rfl⟩ := ih hlater
    have hpart : ['\\', c] ∈ quotedChar '"' := mem_quotedChar.mpr (.inr (.inl ⟨c, hc, rfl⟩))
    exact ⟨['\\', c] ++ body, append_mem_star hpart hbody, rfl⟩
  | case4 c cs _ _ hc => cases h
  | case5 c cs hquote _ hc ih =>
    simp only [Bool.or_eq_true, decide_eq_true_eq, not_or] at hc
    obtain ⟨later, hlater, rfl⟩ := Option.map_eq_some_iff.mp h
    obtain ⟨body, hbody, rfl⟩ := ih hlater
    have hpart : [c] ∈ quotedChar '"' :=
      mem_quotedChar.mpr (.inl ⟨c, hquote, hc.1, hc.2, rfl⟩)
    exact ⟨[c] ++ body, append_mem_star hpart hbody, rfl⟩
  | case6 => cases h

lemma takeWhile_front {front : List Char} (hfront : ∀ c ∈ front, p c = true)
    (hrest : ∀ c ∈ rest.head?, p c = false) : (front ++ rest).takeWhile p = front := by
  have hstop : rest.takeWhile p = [] := by
    cases rest with
    | nil => rfl
    | cons c rest => exact List.takeWhile_cons_of_neg (by simp [hrest c rfl])
  rw [List.takeWhile_append_of_pos hfront, hstop, List.append_nil]

/-- A run of digits is read before anything but a digit. -/
lemma digits?_append {digits : List Char} (h : digits ∈ digitRun)
    (hrest : ∀ c ∈ rest.head?, c.isDigit = false) : digits? (digits ++ rest) = some digits := by
  obtain ⟨hne, hall⟩ := mem_digitRun.mp h
  rw [digits?, takeWhile_front hall hrest, if_neg (by simpa using hne)]

lemma mem_digitRun_of_digits? (h : digits? cs = some text) : text ∈ digitRun := by
  obtain ⟨rfl, hne⟩ := digits?_eq_some h
  exact mem_digitRun.mpr ⟨hne, fun c hc => List.mem_takeWhile_imp hc⟩

lemma mem_exponentPart :
    text ∈ exponentPart ↔ ∃ mark sign digits, (mark = 'e' ∨ mark = 'E') ∧
      sign ∈ [[], ['+'], ['-']] ∧ digits ∈ digitRun ∧ text = mark :: (sign ++ digits) := by
  rw [exponentPart, mem_anyOf_mul]
  simp only [Language.mem_mul, Language.mem_add, Language.mem_one, mem_anyOf, Bool.or_eq_true,
    beq_iff_eq, List.mem_cons, List.not_mem_nil, or_false]
  constructor
  · rintro ⟨mark, _, rfl, hmark, sign, hsign, digits, hdigits, rfl⟩
    refine ⟨mark, sign, digits, hmark, ?_, hdigits, rfl⟩
    rcases hsign with rfl | ⟨c, rfl | rfl, rfl⟩ <;> simp
  · rintro ⟨mark, sign, digits, hmark, hsign, hdigits, rfl⟩
    refine ⟨mark, _, rfl, hmark, sign, ?_, digits, hdigits, rfl⟩
    rcases hsign with rfl | rfl | rfl <;> simp

/-- What follows a token is a blank or the end of the input. -/
def endsToken (k : Option Char) : Prop := ∀ c ∈ k, c = ' '

lemma endsToken_class (hp : p ' ' = false) (h : endsToken rest.head?) :
    ∀ c ∈ rest.head?, p c = false := by
  intro c hc
  rw [h c hc]
  exact hp

lemma exponent_append (h : text ∈ 1 + exponentPart) (hrest : endsToken rest.head?) :
    exponent (text ++ rest) = text := by
  rcases h with rfl | h
  · cases rest with
    | nil => rfl
    | cons c rest =>
      rw [hrest c rfl]
      rfl
  · obtain ⟨mark, sign, digits, hmark, hsign, hdigits, rfl⟩ := mem_exponentPart.mp h
    have hrun : digits? (digits ++ rest) = some digits :=
      digits?_append hdigits (endsToken_class rfl hrest)
    have hmark' : (mark = 'e' || mark = 'E') = true := by simpa using hmark
    simp only [List.mem_cons, List.not_mem_nil, or_false] at hsign
    rcases hsign with rfl | rfl | rfl
    · obtain ⟨hne, hall⟩ := mem_digitRun.mp hdigits
      obtain ⟨d, ds, rfl⟩ := List.exists_cons_of_ne_nil hne
      have hd : d ≠ '+' ∧ d ≠ '-' := by
        have hdigit := hall d List.mem_cons_self
        constructor <;> (rintro rfl; cases hdigit)
      simp only [List.nil_append, List.cons_append] at hrun ⊢
      simp [exponent, hmark', hd, hrun]
    · simp [exponent, hmark', hrun]
    · simp [exponent, hmark', hrun]

/-- A float literal is read up to the end of its fraction or exponent. -/
lemma float?_append (h : text ∈ floatLexemes) (hrest : endsToken rest.head?) :
    float? (text ++ rest) = some text := by
  rw [floatLexemes, Language.mem_mul] at h
  obtain ⟨whole, hwhole, _, hpoint, rfl⟩ := h
  obtain ⟨_, rfl, hdigits⟩ := mem_exactly_mul.mp hpoint
  obtain ⟨fraction, hfraction, power, hpower, rfl⟩ := Language.mem_mul.mp hdigits
  have hafter : ∀ c ∈ (power ++ rest).head?, c.isDigit = false := by
    rcases hpower with rfl | hpower
    · exact endsToken_class rfl hrest
    · obtain ⟨mark, _, _, hmark, -, -, rfl⟩ := mem_exponentPart.mp hpower
      rintro c hc
      cases hc
      rcases hmark with rfl | rfl <;> rfl
  have hfirst : digits? (whole ++ '.' :: (fraction ++ (power ++ rest))) = some whole :=
    digits?_append hwhole fun c hc => by cases hc; rfl
  have hsecond : digits? (fraction ++ (power ++ rest)) = some fraction :=
    digits?_append hfraction hafter
  have hshape : whole ++ (".".toList ++ (fraction ++ power)) ++ rest =
      whole ++ '.' :: (fraction ++ (power ++ rest)) := by
    simp
  rw [hshape, float?, hfirst]
  simp only [List.drop_left]
  rw [hsecond]
  simp only [List.drop_left, exponent_append hpower hrest]
  simp

lemma mem_floatLexemes_of_float? (h : float? cs = some text) : text ∈ floatLexemes := by
  obtain ⟨whole, ds, fraction, hwhole, -, hfraction, rfl⟩ := float?_eq_some h
  have hpower : exponent (ds.drop fraction.length) ∈ 1 + exponentPart := by
    rcases exponent_cases (ds.drop fraction.length) with
      hnone | ⟨mark, sign, digits, run, hmark, hsign, -, hrun, hsome⟩
    · rw [hnone]
      exact .inl rfl
    · rw [hsome]
      exact .inr (mem_exponentPart.mpr
        ⟨mark, sign, run, hmark, hsign, mem_digitRun_of_digits? hrun, rfl⟩)
  rw [List.append_assoc]
  refine Language.append_mem_mul (mem_digitRun_of_digits? hwhole) ?_
  refine mem_exactly_mul.mpr ⟨_, rfl, ?_⟩
  exact Language.append_mem_mul (mem_digitRun_of_digits? hfraction) hpower

end Languages

variable {kind : TokenKind} {text cs rest : List Char}

lemma mem_classLexemes_of_ofKind? (htext : kind.text = none) (h : ofKind? kind cs = some text) :
    text ∈ classLexemes kind := by
  have hname {first : Char → Bool} (h : name? first cs = some text) :
      text ∈ nameLexemes first := by
    obtain ⟨c, tail, rfl, hc, rfl⟩ := name?_split h
    refine mem_anyOf_mul.mpr ⟨c, _, rfl, hc, ?_⟩
    exact mem_star_anyOf.mpr fun d hd => List.mem_takeWhile_imp hd
  rcases kind_of_text_eq_none htext with rfl | rfl | rfl | rfl | rfl | rfl
  · exact hname h
  · exact hname h
  · exact mem_digitRun_of_digits? h
  · exact mem_floatLexemes_of_float? h
  · exact mem_charLexemes.mpr (char?_eq_some_iff.mp h).1
  · change string? cs = some text at h
    unfold string? at h
    split at h
    next cs =>
      obtain ⟨body, hbody, rfl⟩ := Option.map_eq_some_iff.mp h
      obtain ⟨body, hstar, rfl⟩ := mem_star_of_stringBody? hbody
      exact mem_exactly_mul.mpr ⟨_, rfl, Language.append_mem_mul hstar rfl⟩
    next => cases h

/-- The text starts neither like a literal nor with a blank, contains no blank, and starts no
comment, either alone or before a blank. -/
def isPlainSpelling (text : List Char) : Bool :=
  text.head?.any (fun c => !startsLiteral c && !isBlank c) && !text.contains ' ' &&
    !startsComment text && !startsComment (text ++ [' '])

lemma isPlainSpelling_of_text {spelling : String} (h : kind.text = some spelling) :
    isPlainSpelling spelling.toList = true := by
  have hall : (TokenKind.all.all fun kind => kind.text.all fun spelling =>
      isPlainSpelling spelling.toList) = true := by decide +kernel
  have hkind := List.all_eq_true.mp hall kind (TokenKind.mem_all kind)
  rwa [h, Option.all_some] at hkind

/-- What stands before a blank is found as if it stood alone. -/
lemma longest?_before_blank {tail : List Char} (hc : startsLiteral c = false)
    (hrest : endsToken rest.head?) : longest? (c :: tail ++ rest) = longest? (c :: tail) := by
  refine longest?_append hc (fun d hd hextends => ?_) fun _ => ?_
  · rw [hrest d hd] at hextends
    obtain ⟨kind, -, hfound⟩ := List.mem_filterMap.mp hextends
    obtain ⟨spelling, hspelling, hnext⟩ := Option.bind_eq_some_iff.mp hfound
    have hplain := isPlainSpelling_of_text hspelling
    split at hnext
    next =>
      have hmem := List.mem_of_mem_drop (List.mem_of_mem_head? hnext)
      simp [isPlainSpelling, hmem] at hplain
    next => cases hnext
  · cases rest with
    | nil => rw [List.append_nil]
    | cons d rest =>
      rw [hrest d rfl, List.takeWhile_append, List.takeWhile_cons_of_neg (by decide),
        List.append_nil]
      split
      next hwhole =>
        refine (List.IsPrefix.eq_of_length ?_ hwhole).symm
        exact List.takeWhile_prefix _
      next => rfl

lemma longest?_of_longer (h : ofKind? kind cs = some text)
    (hother : ∀ kind' text', ofKind? kind' cs = some text' → kind' ≠ kind →
      text'.length < text.length) : longest? cs = some (kind, text) := by
  obtain ⟨kind', text', hlongest, hle⟩ :=
    (foldl_longer cs TokenKind.all none).2.2 kind (TokenKind.mem_all kind) text h
  change longest? cs = some (kind', text') at hlongest
  have hfound := ofKind?_of_longest? hlongest
  by_cases hkind : kind' = kind
  · subst hkind
    rw [hlongest, Option.some.inj (hfound.symm.trans h)]
  · have hlt := hother kind' text' hfound hkind
    omega

/-- No keyword or symbol starts like a literal or with a blank. -/
lemma start_of_text {spelling : String} (h : kind.text = some spelling) :
    ∃ c tail, spelling.toList = c :: tail ∧ startsLiteral c = false ∧ isBlank c = false := by
  have hplain := isPlainSpelling_of_text h
  cases hspelling : spelling.toList with
  | nil =>
    rw [hspelling] at hplain
    cases hplain
  | cons c tail =>
    rw [hspelling] at hplain
    simp only [isPlainSpelling, List.head?_cons, Option.any_some, Bool.and_eq_true,
      Bool.not_eq_true'] at hplain
    exact ⟨c, tail, rfl, hplain.1.1.1⟩

/-- Names start with letters. -/
lemma start_of_ofKind? (htext : kind.text = none) (h : ofKind? kind (c :: cs) = some text) :
    c.isAlpha = true ∨ startsLiteral c = true := by
  have hname {first : Char → Bool} (hfirst : ∀ d, first d = true → d.isAlpha = true)
      (h : name? first (c :: cs) = some text) : c.isAlpha = true := by
    obtain ⟨d, tail, hcs, hd, -⟩ := name?_split h
    rw [(List.cons.inj hcs).1]
    exact hfirst d hd
  by_cases hgenid : kind = .genid
  · subst hgenid
    exact .inl (hname (fun d hd => isAlpha_iff.mpr (.inr hd)) h)
  by_cases hconid : kind = .conid
  · subst hconid
    exact .inl (hname (fun d hd => isAlpha_iff.mpr (.inl hd)) h)
  right
  by_contra hliteral
  rw [ofKind?_literal cs htext hgenid hconid (by simpa using hliteral)] at h
  cases h

/-- Literals of the kind start with the character. -/
def StartsKind (kind : TokenKind) (c : Char) : Prop :=
  c.isDigit = true ∧ (kind = .intLiteral ∨ kind = .floatLiteral) ∨
    c = '\'' ∧ kind = .charLiteral ∨ c = '"' ∧ kind = .stringLiteral

lemma startsKind_of_ofKind? (hc : startsLiteral c = true) (h : ofKind? kind (c :: cs) = some text) :
    StartsKind kind c := by
  have hname {first : Char → Bool} (hfirst : ∀ d, first d = true → d.isAlpha = true)
      (h : name? first (c :: cs) = some text) : False := by
    obtain ⟨d, tail, hcs, hd, -⟩ := name?_split h
    rw [(List.cons.inj hcs).1, startsLiteral_of_isAlpha (hfirst d hd)] at hc
    cases hc
  have hdigits {digits : List Char} (h : digits? (c :: cs) = some digits) : c.isDigit = true := by
    obtain ⟨hdigits, hne⟩ := digits?_eq_some h
    by_contra hdigit
    rw [List.takeWhile_cons_of_neg hdigit] at hdigits
    exact hne hdigits
  cases htext : kind.text with
  | some spelling =>
    obtain ⟨d, tail, hspelling, hd, -⟩ := start_of_text htext
    obtain ⟨rfl, rest, hcs⟩ := eq_of_ofKind?_text htext h
    rw [hspelling] at hcs
    rw [(List.cons.inj hcs).1, hd] at hc
    cases hc
  | none =>
    rcases kind_of_text_eq_none htext with rfl | rfl | rfl | rfl | rfl | rfl
    · exact (hname (fun d hd => isAlpha_iff.mpr (.inr hd)) h).elim
    · exact (hname (fun d hd => isAlpha_iff.mpr (.inl hd)) h).elim
    · exact .inl ⟨hdigits h, .inl rfl⟩
    · obtain ⟨whole, ds, fraction, hwhole, -⟩ := float?_eq_some h
      exact .inl ⟨hdigits hwhole, .inr rfl⟩
    · obtain ⟨hlexeme, rest, hcs⟩ := char?_eq_some_iff.mp h
      refine .inr (.inl ⟨?_, rfl⟩)
      cases hlexeme <;> exact (List.cons.inj hcs).1
    · refine .inr (.inr ⟨?_, rfl⟩)
      by_contra hquote
      simp [ofKind?, string?, hquote] at h

/-- A literal is found before a blank if no other kind of literals that starts like it is found
there as far. -/
lemma longest?_literal (hc : startsLiteral c = true) (h : ofKind? kind (c :: cs) = some text)
    (hother : ∀ kind' text', StartsKind kind' c → kind' ≠ kind →
      ofKind? kind' (c :: cs) = some text' → text'.length < text.length) :
    longest? (c :: cs) = some (kind, text) :=
  longest?_of_longer h fun kind' text' hfound hkind =>
    hother kind' text' (startsKind_of_ofKind? hc hfound) hkind hfound

lemma StartsKind.of_digit (hc : c.isDigit = true) (h : StartsKind kind c) :
    kind = .intLiteral ∨ kind = .floatLiteral := by
  rcases h with ⟨-, h⟩ | ⟨rfl, -⟩ | ⟨rfl, -⟩
  · exact h
  · cases hc
  · cases hc

lemma longest?_digits (h : text ∈ digitRun) (hrest : endsToken rest.head?) :
    longest? (text ++ rest) = some (.intLiteral, text) := by
  have hfound : digits? (text ++ rest) = some text := digits?_append h (endsToken_class rfl hrest)
  obtain ⟨hne, hall⟩ := mem_digitRun.mp h
  obtain ⟨c, tail, rfl⟩ := List.exists_cons_of_ne_nil hne
  have hc : c.isDigit = true := hall c List.mem_cons_self
  refine longest?_literal (by simp [startsLiteral, hc]) hfound fun kind text' hkind hne hother => ?_
  -- Only a float literal starts with a digit too, but no point follows.
  obtain rfl : kind = .floatLiteral := (hkind.of_digit hc).resolve_left hne
  obtain ⟨whole, ds, -, hwhole, hpoint, -⟩ := float?_eq_some hother
  obtain rfl : whole = c :: tail := Option.some.inj (hwhole.symm.trans hfound)
  change (c :: tail ++ rest).drop (c :: tail).length = '.' :: ds at hpoint
  rw [List.drop_left] at hpoint
  rw [hpoint] at hrest
  exact absurd (hrest '.' rfl) (by decide)

lemma longest?_float (h : text ∈ floatLexemes) (hrest : endsToken rest.head?) :
    longest? (text ++ rest) = some (.floatLiteral, text) := by
  have hfound : float? (text ++ rest) = some text := float?_append h hrest
  obtain ⟨whole, ds, fraction, hwhole, -, -, htext⟩ := float?_eq_some hfound
  have hlength : whole.length < text.length := by
    rw [htext]
    simp only [List.length_append, List.length_cons]
    omega
  obtain ⟨hne, hall⟩ := mem_digitRun.mp (mem_digitRun_of_digits? hwhole)
  obtain ⟨c, tail, rfl⟩ := List.exists_cons_of_ne_nil hne
  have hc : c.isDigit = true := hall c List.mem_cons_self
  obtain ⟨tail', rfl⟩ : ∃ tail', text = c :: tail' := ⟨_, htext⟩
  refine longest?_literal (by simp [startsLiteral, hc]) hfound fun kind text' hkind hne hother => ?_
  obtain rfl : kind = .intLiteral := (hkind.of_digit hc).resolve_right hne
  rw [Option.some.inj (hother.symm.trans hwhole)]
  exact hlength

lemma longest?_char (h : CharLexeme text) :
    longest? (text ++ rest) = some (.charLiteral, text) := by
  have hfound : char? (text ++ rest) = some text := char?_eq_some_iff.mpr ⟨h, rest, rfl⟩
  obtain ⟨tail, rfl⟩ : ∃ tail, text = '\'' :: tail := by cases h <;> exact ⟨_, rfl⟩
  refine longest?_literal rfl hfound fun kind text' hkind hne _ => ?_
  rcases hkind with ⟨hdigit, -⟩ | ⟨-, rfl⟩ | ⟨hquote, -⟩
  · cases hdigit
  · exact absurd rfl hne
  · exact absurd hquote (by decide)

lemma longest?_string (h : text ∈ stringLexemes) :
    longest? (text ++ rest) = some (.stringLiteral, text) := by
  obtain ⟨_, rfl, hbody⟩ := mem_exactly_mul.mp h
  obtain ⟨body, hstar, _, rfl, rfl⟩ := Language.mem_mul.mp hbody
  change longest? ('"' :: (body ++ ['"']) ++ rest) = some (.stringLiteral, '"' :: (body ++ ['"']))
  have hfound : string? ('"' :: (body ++ ['"']) ++ rest) = some ('"' :: (body ++ ['"'])) := by
    rw [List.cons_append, List.append_assoc, string?, List.singleton_append,
      stringBody?_append hstar]
    rfl
  refine longest?_literal rfl hfound fun kind text' hkind hne _ => ?_
  rcases hkind with ⟨hdigit, -⟩ | ⟨hprime, -⟩ | ⟨-, rfl⟩
  · cases hdigit
  · exact absurd hprime (by decide)
  · exact absurd rfl hne

lemma isUpper_of_isLower (h : c.isLower = true) : c.isUpper = false := by
  rw [isLower_iff] at h
  rw [Bool.eq_false_iff, Ne, isUpper_iff]
  omega

/-- A name that is no spelling is found as a whole. -/
lemma longest?_nameLexeme {first : Char → Bool}
    (hclass : ∀ cs, ofKind? kind cs = name? first cs)
    (hfirst : ∀ c, first c = true → c.isAlpha = true)
    (hother : ∀ c cs kind', first c = true → kind'.text = none → kind' ≠ kind →
      startsLiteral c = false → ofKind? kind' (c :: cs) = none)
    (h : text ∈ nameLexemes first)
    (hspelling : ∀ kind' : TokenKind, kind'.text ≠ some (String.ofList text))
    (hrest : endsToken rest.head?) : longest? (text ++ rest) = some (kind, text) := by
  obtain ⟨c, tail, rfl, hc, htail⟩ := mem_anyOf_mul.mp h
  have hliteral := startsLiteral_of_isAlpha (hfirst c hc)
  rw [longest?_before_blank hliteral hrest]
  refine longest?_of_longer ?_ fun kind' text' hfound hne => ?_
  · rw [hclass, name?, if_pos hc, List.takeWhile_eq_self_iff.mpr (mem_star_anyOf.mp htail)]
  · cases htext : kind'.text with
    | none =>
      rw [hother c tail kind' hc htext hne hliteral] at hfound
      cases hfound
    | some spelling =>
      obtain ⟨hspelled, rest, hfront⟩ := eq_of_ofKind?_text htext hfound
      cases rest with
      | nil =>
        rw [List.append_nil, hspelled] at hfront
        rw [hfront, String.ofList_toList] at hspelling
        exact absurd htext (hspelling kind')
      | cons d rest =>
        rw [hfront, List.length_append, List.length_cons]
        omega

/-- What is spelled like a token of a kind is found as a lexeme of that kind before a blank. -/
lemma longest?_of_spelled (h : Spelled w) (hrest : endsToken rest.head?) :
    longest? (w.2.toList ++ rest) = some (w.1, w.2.toList) := by
  obtain ⟨kind, value⟩ := w
  obtain ⟨hmem, hname⟩ := h
  dsimp only at hmem hname ⊢
  unfold lexemesOf at hmem
  cases htext : kind.text with
  | some spelling =>
    rw [htext] at hmem
    obtain ⟨c, tail, hspelling, hc, -⟩ := start_of_text htext
    have hlexeme := isLexeme_spelling htext
    rw [IsLexeme, hspelling] at hlexeme
    rw [show value.toList = spelling.toList from hmem, hspelling, longest?_before_blank hc hrest]
    exact hlexeme
  | none =>
    rw [htext] at hmem
    rw [← String.ofList_toList (s := value)] at hname
    rcases kind_of_text_eq_none htext with rfl | rfl | rfl | rfl | rfl | rfl
    · refine longest?_nameLexeme (fun _ => rfl) (fun c hc => isAlpha_iff.mpr (.inr hc)) ?_ hmem
        (hname (.inl rfl)) hrest
      intro c cs kind' hc htext' hne hliteral
      by_cases hconid : kind' = .conid
      · subst hconid
        show name? Char.isUpper (c :: cs) = none
        simp [name?, isUpper_of_isLower hc]
      · exact ofKind?_literal cs htext' hne hconid hliteral
    · refine longest?_nameLexeme (fun _ => rfl) (fun c hc => isAlpha_iff.mpr (.inl hc)) ?_ hmem
        (hname (.inr rfl)) hrest
      intro c cs kind' hc htext' hne hliteral
      by_cases hgenid : kind' = .genid
      · subst hgenid
        have hlower : c.isLower = false := by
          by_contra hlower
          rw [isUpper_of_isLower (by simpa using hlower)] at hc
          cases hc
        show name? Char.isLower (c :: cs) = none
        simp [name?, hlower]
      · exact ofKind?_literal cs htext' hgenid hne hliteral
    · exact longest?_digits hmem hrest
    · exact longest?_float hmem hrest
    · exact longest?_char (mem_charLexemes.mp hmem)
    · exact longest?_string hmem

/-- No comment starts where a token is spelled before a blank. -/
lemma startsComment_of_spelled (h : Spelled w) (hrest : endsToken rest.head?) :
    startsComment (w.2.toList ++ rest) = false := by
  have hmatch := ofKind?_of_longest? (longest?_of_spelled h hrest)
  cases htext : w.1.text with
  | some spelling =>
    have hplain := isPlainSpelling_of_text htext
    simp only [isPlainSpelling, Bool.and_eq_true, Bool.not_eq_true'] at hplain
    obtain ⟨⟨-, halone⟩, hblank⟩ := hplain
    rw [(eq_of_ofKind?_text htext hmatch).1]
    obtain ⟨c, tail, hspelling, -⟩ := start_of_text htext
    rw [hspelling] at halone hblank ⊢
    cases rest with
    | nil =>
      rw [List.append_nil]
      exact halone
    | cons d rest =>
      rw [hrest d rfl]
      cases tail with
      | nil => exact (startsComment_cons_cons c ' ' _ _).trans hblank
      | cons e tail => exact (startsComment_cons_cons c e _ _).trans hblank
  | none =>
    -- Names and literals start with other characters than comments.
    cases hcs : w.2.toList ++ rest with
    | nil => rfl
    | cons c cs =>
      rw [hcs] at hmatch
      have hstart := start_of_ofKind? htext hmatch
      apply startsComment_of_ne
      · rintro rfl
        revert hstart
        decide
      · rintro rfl
        revert hstart
        decide

/-- The text stands among tokens as it is and is cut into the given words, where it follows no name
directly and a blank or the end of the input comes next. -/
def CutsApart (text : List Char) (words : List Word) : Prop :=
  ∀ before rest, continuesName before = false → endsToken rest.head? →
    Passes before text rest ∧
      ∀ place, ∃ place', scanned place (text ++ rest) =
        (scanned place' rest).map fun later => words ++ later

lemma cutsApart_of_spelled (h : Spelled w) : CutsApart w.2.toList [w] := by
  intro before rest hbefore hrest
  have hlongest := longest?_of_spelled h hrest
  have hmatch := ofKind?_of_longest? hlongest
  obtain ⟨rest', hsplit, hpasses⟩ : ∃ rest', w.2.toList ++ rest = w.2.toList ++ rest' ∧
      Passes before w.2.toList rest' := by
    refine passes_lexeme (startsComment_of_spelled h hrest) hmatch fun _ hcontinues => ?_
    rw [hbefore] at hcontinues
    cases hcontinues
  obtain rfl := List.append_cancel_left hsplit
  refine ⟨hpasses, fun place => ?_⟩
  obtain ⟨c, tail, htext⟩ := List.exists_cons_of_ne_nil (ne_nil_of_ofKind? hmatch)
  have hblank : isBlank c = false := by
    rw [htext] at hmatch
    cases hkind : w.1.text with
    | some spelling =>
      obtain ⟨d, later, hspelling, -, hd⟩ := start_of_text hkind
      have hfirst := (eq_of_ofKind?_text hkind hmatch).1
      rw [hspelling] at hfirst
      rw [(List.cons.inj hfirst).1]
      exact hd
    | none =>
      have hstart := start_of_ofKind? hkind hmatch
      by_contra hblank
      simp only [isBlank, Bool.not_eq_false, Bool.or_eq_true, beq_iff_eq] at hblank
      rcases hblank with (((rfl | rfl) | rfl) | rfl) | rfl <;> revert hstart <;> decide
  have hword : w = (w.1, String.ofList (c :: tail)) := by
    rw [← htext, String.ofList_toList]
  rw [htext] at hlongest ⊢
  rw [hword]
  exact scanned_token place hblank hlongest

/-- A blank keeps two texts apart. -/
lemma CutsApart.append_blank {text' : List Char} {words words' : List Word}
    (h : CutsApart text words) (h' : CutsApart text' words') :
    CutsApart (text ++ ' ' :: text') (words ++ words') := by
  intro before rest hbefore hrest
  have hblank : continuesName (some ' ') = false := (isBlank_ne rfl).2.2
  obtain ⟨hpasses, hscanned⟩ := h before ([' '] ++ (text' ++ rest)) hbefore fun c hc => by
    cases hc
    rfl
  obtain ⟨hpasses', hscanned'⟩ := h' (some ' ') rest hblank hrest
  have hfront : Passes before text (' ' :: text' ++ rest) := hpasses
  refine ⟨hfront.append (hpasses'.cons_calm rfl), fun place => ?_⟩
  obtain ⟨place₁, hfirst⟩ := hscanned place
  obtain ⟨place₂, hgap⟩ : ∃ place₂, scanned place₁ ([' '] ++ (text' ++ rest)) =
      scanned place₂ (text' ++ rest) :=
    scanned_gap (fun c hc => by rw [List.mem_singleton.mp hc]; rfl) _ place₁
  obtain ⟨place₃, hsecond⟩ := hscanned' place₂
  have hsplit : text ++ ' ' :: text' ++ rest = text ++ ([' '] ++ (text' ++ rest)) := by simp
  refine ⟨place₃, ?_⟩
  rw [hsplit, hfirst, hgap, hsecond]
  simp only [Option.map_map, Function.comp_def, List.append_assoc]

lemma cutsApart_nil : CutsApart [] [] := by
  intro before rest _ _
  refine ⟨passes_nil, fun place => ⟨place, ?_⟩⟩
  simp

lemma cutsApart_words {words : List Word} (h : ∀ w ∈ words, Spelled w) :
    CutsApart (" ".intercalate (words.map Prod.snd)).toList words := by
  induction words with
  | nil => simpa using cutsApart_nil
  | cons w words ih =>
    obtain ⟨hw, hwords⟩ := List.forall_mem_cons.mp h
    cases words with
    | nil => simpa using cutsApart_of_spelled hw
    | cons w' words => simpa using (cutsApart_of_spelled hw).append_blank (ih hwords)

/-- A token of any text is spelled like one of its kind. -/
lemma spelled_of_lex {source : String} {tokens : List Token} {token : Token}
    (h : lex source = .ok tokens) (hmem : token ∈ tokens) : Spelled (word token) := by
  obtain ⟨_, lexeme, hstands⟩ := (shows_scan (scan_of_lex h)).exists_standsAt token hmem
  obtain ⟨cs, hlongest⟩ := hstands.longest
  have hmatch := ofKind?_of_longest? hlongest
  refine ⟨?_, fun hkind kind htext => ?_⟩
  · show token.value.toList ∈ lexemesOf token.kind
    rw [hstands.value, String.toList_ofList, lexemesOf]
    cases htext : token.kind.text with
    | some spelling => exact (eq_of_ofKind?_text htext hmatch).1
    | none => exact mem_classLexemes_of_ofKind? htext hmatch
  · -- A spelling is found as a keyword or symbol and not as a name.
    have hname := isLexeme_of_lex h hmem hkind
    have hspelling := isLexeme_spelling htext
    have hsame := hname.symm.trans hspelling
    have hnone : kind.text = none := by
      rw [← (Prod.mk.inj (Option.some.inj hsame)).1]
      rcases hkind with hkind | hkind <;> rw [show token.kind = _ from hkind] <;> rfl
    rw [htext] at hnone
    cases hnone

lemma exists_lex_of_spelled (words : List Word) (h : ∀ w ∈ words, Spelled w) :
    ∃ tokens, lex (" ".intercalate (words.map Prod.snd)) = .ok tokens ∧
      tokens.map word = words := by
  obtain ⟨hpasses, hscanned⟩ := cutsApart_words h none [] rfl fun c hc => by cases hc
  obtain ⟨place', hscan⟩ := hscanned ⟨0, 0⟩
  exact lex_of_passes hpasses hscan

/-- The words of tokens, written with single blanks between them, are cut out again as they were.
The languages of lexemes describe exactly the words that tokens can have. -/
theorem lex_spaced_words (words : List Word) (h : ∀ w ∈ words, Spelled w) :
    (∃ tokens, lex (" ".intercalate (words.map Prod.snd)) = .ok tokens ∧
      tokens.map word = words) ∧
    ∀ w, Spelled w ↔ ∃ source tokens, lex source = .ok tokens ∧ w ∈ tokens.map word := by
  refine ⟨exists_lex_of_spelled words h, fun w => ⟨fun hw => ?_, ?_⟩⟩
  · obtain ⟨tokens, htokens, hwords⟩ := exists_lex_of_spelled [w] (by simpa using hw)
    exact ⟨_, tokens, htokens, by simp [hwords]⟩
  · rintro ⟨source, tokens, hsource, hw⟩
    obtain ⟨token, htoken, rfl⟩ := List.mem_map.mp hw
    exact spelled_of_lex hsource htoken

/-- Signs, a parenthesis and a star that would make comments without the blanks, and literals with
quotes, escapes and the marks of comments in them. -/
def markedWords : List Word :=
  [(.genid, "x'"), (.minus, "-"), (.minus, "-"), (.lParen, "("), (.times, "*"), (.kwIn, "in"),
    (.intLiteral, "007"), (.charLiteral, "'\\''"), (.charLiteral, "'\"'"), (.conid, "In"),
    (.floatLiteral, "1.5e-3"), (.stringLiteral, "\"--(*\\\"\\x2a'\"")]

/-- The same words with other blanks and with comments between them. -/
def markedSource : String :=
  "x'-\n-(\t*(* in *)in 007-- 7\n'\\'' '\"'In(**)1.5e-3\"--(*\\\"\\x2a'\""

theorem lex_spaced_markedWords :
    (∀ w ∈ markedWords, Spelled w) ∧
      ∃ tokens, lex (" ".intercalate (markedWords.map Prod.snd)) = .ok tokens ∧
        tokens.map word = markedWords := by
  have hsource : (lex markedSource).toOption.map (List.map word) = some markedWords := by
    decide +kernel
  obtain ⟨tokens, htokens, hwords⟩ := Option.map_eq_some_iff.mp hsource
  have hspelled : ∀ w ∈ markedWords, Spelled w := by
    intro w hw
    rw [← hwords] at hw
    obtain ⟨token, htoken, rfl⟩ := List.mem_map.mp hw
    cases hlex : lex markedSource with
    | error e =>
      rw [hlex] at htokens
      cases htokens
    | ok found =>
      rw [hlex] at htokens
      cases htokens
      exact spelled_of_lex hlex htoken
  exact ⟨hspelled, (lex_spaced_words markedWords hspelled).1⟩

end Llama.Proofs
