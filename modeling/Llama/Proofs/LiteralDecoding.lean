import Llama.Proofs.WordSpacing
import Mathlib.Algebra.Group.Nat.Even
import Mathlib.Data.List.DropRight
import Mathlib.Data.List.Induction

/-!
# Decoding literals from left to right

A reader that takes one character of a body after the other, and remembers only how far it is in an
escape, finds the same value as the decoder, which looks ahead. Both refuse exactly the bodies with
an escape that stands for nothing. Which backslashes open an escape can be told without reading:
those with an even number of backslashes right before them.
-/

namespace Llama.Proofs

open Token
open scoped Computability

variable {escape rest : List Char} {literal : String}

/-- The escapes of one letter or mark, with the characters that they stand for. -/
def namedEscapes : List (Char × Char) :=
  [('n', '\n'), ('t', '\t'), ('r', '\r'), ('0', '\x00'), ('\\', '\\'), ('\'', '\''), ('"', '"')]

/-- The value of a hexadecimal digit of either case. -/
def hexDigit? (c : Char) : Option Nat :=
  ("0123456789abcdef".toList.idxOf? c).or ("0123456789ABCDEF".toList.idxOf? c)

/-- How far a reader is in what stands for one character. -/
inductive Reading where
  /-- Before a character or a backslash. -/
  | start
  /-- After a backslash. -/
  | escape
  /-- After a backslash and the letter x. -/
  | code
  /-- After a backslash, the letter x and a digit of the given value. -/
  | half (digit : Nat)
deriving DecidableEq, Repr

/-- Reads one more character of a body, after some that stand for the given ones. -/
def readChar : Reading × List Char → Char → Option (Reading × List Char)
  | (.start, value), c =>
    if c = '\\' then some (.escape, value) else some (.start, value ++ [c])
  | (.escape, value), c =>
    if c = 'x' then some (.code, value)
    else (namedEscapes.lookup c).map fun d => (.start, value ++ [d])
  | (.code, value), c => (hexDigit? c).map fun digit => (.half digit, value)
  | (.half digit, value), c =>
    (hexDigit? c).map fun digit' => (.start, value ++ [Char.ofNat (16 * digit + digit')])

/-- What was read stands for some characters if no escape is left open. -/
def closeReading : Reading × List Char → Option (List Char)
  | (.start, value) => some value
  | _ => none

/-- The characters that a body stands for, read from left to right. -/
def readBody (body : List Char) : Option (List Char) :=
  (body.foldlM readChar (.start, [])).bind closeReading

/-! ### Escapes that stand for nothing -/

/-- The text starts with two hexadecimal digits. -/
def StartsCode (cs : List Char) : Prop :=
  ∃ a b rest, cs = a :: b :: rest ∧ (hexDigit? a).isSome = true ∧ (hexDigit? b).isSome = true

/-- A backslash with this character, before this text, stands for a character. -/
def KnownEscape (c : Char) (after : List Char) : Prop :=
  (namedEscapes.lookup c).isSome = true ∨ c = 'x' ∧ StartsCode after

/-- The number of backslashes at the end of a text. -/
def lastBackslashes (cs : List Char) : Nat := (cs.rtakeWhile (· == '\\')).length

/-- The body contains an escape that stands for nothing. A backslash opens an escape if an even
number of backslashes stands right before it. -/
def OtherEscape (body : List Char) : Prop :=
  ∃ before c after, body = before ++ '\\' :: c :: after ∧ Even (lastBackslashes before) ∧
    ¬KnownEscape c after

variable {a b c : Char} {cs : List Char}

lemma lastBackslashes_concat (cs : List Char) (c : Char) :
    lastBackslashes (cs ++ [c]) = if c = '\\' then lastBackslashes cs + 1 else 0 := by
  unfold lastBackslashes
  by_cases hc : c = '\\' <;> simp [hc]

/-- Whether a backslash opens an escape depends on what follows the last place where one could. -/
lemma even_lastBackslashes_append {front : List Char} (h : Even (lastBackslashes front))
    (cs : List Char) : Even (lastBackslashes (front ++ cs)) ↔ Even (lastBackslashes cs) := by
  induction cs using List.reverseRecOn with
  | nil =>
    rw [List.append_nil]
    exact iff_of_true h (by decide)
  | append_singleton cs c ih =>
    rw [← List.append_assoc, lastBackslashes_concat, lastBackslashes_concat]
    split
    · rw [Nat.even_add_one, Nat.even_add_one, ih]
    · exact Iff.rfl

lemma not_otherEscape_nil : ¬OtherEscape [] := by
  rintro ⟨before, c, after, h, -⟩
  simp at h

lemma otherEscape_cons (hc : c ≠ '\\') : OtherEscape (c :: cs) ↔ OtherEscape cs := by
  have hfront : Even (lastBackslashes [c]) := by
    rw [← List.nil_append [c], lastBackslashes_concat, if_neg hc]
    decide
  constructor
  · rintro ⟨before, d, after, hbody, heven, hunknown⟩
    cases before with
    | nil => exact absurd (List.cons.inj hbody).1 hc
    | cons e before =>
      obtain ⟨rfl, rfl⟩ := List.cons.inj hbody
      exact ⟨before, d, after, rfl, (even_lastBackslashes_append hfront before).mp heven, hunknown⟩
  · rintro ⟨before, d, after, rfl, heven, hunknown⟩
    exact ⟨c :: before, d, after, rfl, (even_lastBackslashes_append hfront before).mpr heven,
      hunknown⟩

lemma otherEscape_backslash :
    OtherEscape ('\\' :: c :: cs) ↔ ¬KnownEscape c cs ∨ OtherEscape cs := by
  have hfront : Even (lastBackslashes (['\\'] ++ [c])) := by
    rw [lastBackslashes_concat]
    split <;> decide
  constructor
  · rintro ⟨before, d, after, hbody, heven, hunknown⟩
    match before with
    | [] =>
      cases hbody
      exact .inl hunknown
    | [e] =>
      cases hbody
      exact absurd heven (by decide)
    | e :: e' :: before =>
      cases hbody
      exact .inr ⟨before, d, after, rfl, (even_lastBackslashes_append hfront before).mp heven,
        hunknown⟩
  · rintro (hunknown | ⟨before, d, after, rfl, heven, hunknown⟩)
    · exact ⟨[], c, cs, rfl, by decide, hunknown⟩
    · exact ⟨'\\' :: c :: before, d, after, rfl,
        (even_lastBackslashes_append hfront before).mpr heven, hunknown⟩

lemma toNat_lt_of_isHexDigit (h : Text.isHexDigit c = true) : c.toNat < 128 := by
  simp only [Text.isHexDigit, Char.isDigit, Bool.or_eq_true, Bool.and_eq_true, decide_eq_true_eq,
    ge_iff_le, Char.le_def, UInt32.le_iff_toNat_le] at h
  rcases h with (⟨-, h⟩ | ⟨-, h⟩) | ⟨-, h⟩ <;> exact Nat.lt_of_le_of_lt h (by decide)

lemma hexDigit?_eq (c : Char) :
    hexDigit? c = if Text.isHexDigit c then some (Text.hexDigitValue c) else none := by
  have hascii : ∀ n < 128, hexDigit? (Char.ofNat n) =
      if Text.isHexDigit (Char.ofNat n) then some (Text.hexDigitValue (Char.ofNat n))
      else none := by
    decide +kernel
  by_cases hc : c.toNat < 128
  · have h := hascii c.toNat hc
    rwa [Char.ofNat_toNat] at h
  · have hother : Text.isHexDigit c = false :=
      Bool.eq_false_iff.mpr fun h => hc (toNat_lt_of_isHexDigit h)
    have hmissing (digits : String) (h : digits.toList.all (·.toNat < 128) = true) :
        digits.toList.idxOf? c = none := by
      rw [List.idxOf?_eq_none_iff]
      exact fun hmem => hc (by simpa using List.all_eq_true.mp h c hmem)
    rw [hother, hexDigit?, hmissing "0123456789abcdef" (by decide),
      hmissing "0123456789ABCDEF" (by decide)]
    rfl

lemma isSome_hexDigit? (c : Char) : (hexDigit? c).isSome = Text.isHexDigit c := by
  rw [hexDigit?_eq]
  cases Text.isHexDigit c <;> rfl

lemma startsCode_of_digits (ha : Text.isHexDigit a = true) (hb : Text.isHexDigit b = true) :
    StartsCode (a :: b :: cs) :=
  ⟨a, b, cs, rfl, (isSome_hexDigit? a).trans ha, (isSome_hexDigit? b).trans hb⟩

lemma lookup_namedEscapes (c : Char) : namedEscapes.lookup c = Literal.simpleEscape? c := by
  unfold Literal.simpleEscape?
  by_cases hn : c = 'n'
  · subst hn; rfl
  by_cases ht : c = 't'
  · subst ht; rfl
  by_cases hr : c = 'r'
  · subst hr; rfl
  by_cases h0 : c = '0'
  · subst h0; rfl
  by_cases hself : c = '\\' ∨ c = '\'' ∨ c = '"'
  · rcases hself with rfl | rfl | rfl <;> rfl
  · have hbeq : ∀ d, c ≠ d → (c == d) = false := fun d => beq_eq_false_iff_ne.mpr
    simp only [not_or] at hself
    simp [namedEscapes, List.lookup_cons, hbeq, hn, ht, hr, h0, hself]

section Replacement

variable {σ : Type} (replace : List Char → StateM σ Char)

lemma replaceAll_of_none (h : Literal.findEscape? cs = none) :
    Literal.replaceAll replace cs = pure cs := by
  rw [Literal.replaceAll.eq_def]
  split
  · rfl
  · simp_all

lemma replaceAll_of_some {before : List Char}
    (h : Literal.findEscape? cs = some (before, escape, rest)) :
    Literal.replaceAll replace cs =
      replace escape >>= fun d => (before ++ d :: ·) <$> Literal.replaceAll replace rest := by
  rw [Literal.replaceAll.eq_def]
  split
  · simp_all
  · simp_all

/-- A character that starts no escape is kept. -/
lemma replaceAll_plain (h : Literal.escapeAt? (c :: cs) = none) :
    Literal.replaceAll replace (c :: cs) = (c :: ·) <$> Literal.replaceAll replace cs := by
  have hfind : Literal.findEscape? (c :: cs) =
      (Literal.findEscape? cs).map fun found => (c :: found.1, found.2) := by
    rw [Literal.findEscape?, h]
  cases hcs : Literal.findEscape? cs with
  | none =>
    rw [hcs] at hfind
    rw [replaceAll_of_none replace hcs, replaceAll_of_none replace hfind, map_pure]
  | some found =>
    rw [hcs] at hfind
    rw [replaceAll_of_some replace hcs, replaceAll_of_some replace hfind]
    simp

/-- An escape at the start is replaced, and replacing goes on after it. -/
lemma replaceAll_escape (h : Literal.escapeAt? cs = some (escape, rest)) :
    Literal.replaceAll replace cs =
      replace escape >>= fun d => (d :: ·) <$> Literal.replaceAll replace rest := by
  cases cs with
  | nil => cases h
  | cons c cs =>
    have hfind : Literal.findEscape? (c :: cs) = some ([], escape, rest) := by
      rw [Literal.findEscape?, h]
    exact replaceAll_of_some replace hfind

end Replacement

/-- Once an escape has been found that stands for nothing, no other makes up for it. -/
lemma replaceAll_invalid (cs : List Char) :
    (Literal.replaceAll Literal.replacement cs false).2 = false := by
  induction cs using Literal.replaceAll.induct with
  | case1 cs hnone => rw [replaceAll_of_none _ hnone]; rfl
  | case2 cs before escape rest hsome ih =>
    rw [replaceAll_of_some _ hsome]
    unfold Literal.replacement
    cases Literal.escapeValue? escape <;> exact ih

lemma decode?_nil : Literal.decode? [] = some [] := by
  rw [Literal.decode?, replaceAll_of_none _ rfl]
  rfl

/-- One more replaced character comes before the value and does not change whether there is one. -/
lemma decode?_of_replaceAll {d : Char}
    (h : Literal.replaceAll Literal.replacement cs true =
      ((d :: ·) <$> Literal.replaceAll Literal.replacement rest) true) :
    Literal.decode? cs = (Literal.decode? rest).map (d :: ·) := by
  unfold Literal.decode?
  rw [StateT.run, h]
  exact (apply_ite (Option.map (d :: ·))
    ((Literal.replaceAll Literal.replacement rest true).2 = true)
    (some (Literal.replaceAll Literal.replacement rest true).1) none).symm

lemma decode?_keep (h : Literal.escapeAt? (c :: cs) = none) :
    Literal.decode? (c :: cs) = (Literal.decode? cs).map (c :: ·) :=
  decode?_of_replaceAll (by rw [replaceAll_plain _ h])

lemma decode?_replace (h : Literal.escapeAt? cs = some (escape, rest)) :
    Literal.decode? cs =
      (Literal.escapeValue? escape).bind fun d => (Literal.decode? rest).map (d :: ·) := by
  have hreplace := replaceAll_escape Literal.replacement h
  cases hvalue : Literal.escapeValue? escape with
  | none =>
    have hinvalid : (Literal.replaceAll Literal.replacement cs true).2 = false := by
      rw [hreplace, Literal.replacement, hvalue]
      exact replaceAll_invalid rest
    exact if_neg (Bool.eq_false_iff.mp hinvalid)
  | some d =>
    refine decode?_of_replaceAll ?_
    rw [hreplace, Literal.replacement, hvalue]
    rfl

lemma decode?_plain (hc : c ≠ '\\') :
    Literal.decode? (c :: cs) = (Literal.decode? cs).map (c :: ·) := by
  refine decode?_keep ?_
  rw [Literal.escapeAt?]
  simp [hc]

lemma decode?_escape (hx : c ≠ 'x') (hline : c ≠ '\n') :
    Literal.decode? ('\\' :: c :: cs) =
      (Literal.simpleEscape? c).bind fun d => (Literal.decode? cs).map (d :: ·) := by
  have hfound : Literal.escapeAt? ('\\' :: c :: cs) = some ([c], cs) := by
    simp [Literal.escapeAt?, Literal.codeAt?, Literal.anyAt?, hx, hline]
  rw [decode?_replace hfound]
  rfl

lemma decode?_code (ha : Text.isHexDigit a = true) (hb : Text.isHexDigit b = true) :
    Literal.decode? ('\\' :: 'x' :: a :: b :: cs) =
      (Literal.decode? cs).map (Literal.hexChar a b :: ·) := by
  have hfound : Literal.escapeAt? ('\\' :: 'x' :: a :: b :: cs) = some (['x', a, b], cs) := by
    simp [Literal.escapeAt?, Literal.codeAt?, ha, hb]
  rw [decode?_replace hfound]
  rfl

lemma decode?_stray (h : ¬StartsCode cs) : Literal.decode? ('\\' :: 'x' :: cs) = none := by
  have hcode : Literal.codeAt? ('x' :: cs) = none := by
    match cs with
    | [] => rfl
    | [_] => rfl
    | a :: b :: cs =>
      rw [Literal.codeAt?, if_neg]
      intro hdigits
      rw [Bool.and_eq_true] at hdigits
      exact h (startsCode_of_digits hdigits.1 hdigits.2)
  have hfound : Literal.escapeAt? ('\\' :: 'x' :: cs) = some (['x'], cs) := by
    rw [Literal.escapeAt?, hcode]
    rfl
  rw [decode?_replace hfound]
  rfl

/-- The text can be read from left to right in pieces that stand for one character: a character, an
escape with one character, or a code. An `x` without digits stands for nothing. -/
inductive Glyphs : List Char → Prop
  | nil : Glyphs []
  | plain {c : Char} {cs : List Char} : c ≠ '\\' → Glyphs cs → Glyphs (c :: cs)
  | escape {c : Char} {cs : List Char} :
      c ≠ 'x' → c ≠ '\n' → Glyphs cs → Glyphs ('\\' :: c :: cs)
  | code {a b : Char} {cs : List Char} : Text.isHexDigit a = true → Text.isHexDigit b = true →
      Glyphs cs → Glyphs ('\\' :: 'x' :: a :: b :: cs)
  | stray {cs : List Char} : ¬StartsCode cs → Glyphs cs → Glyphs ('\\' :: 'x' :: cs)

lemma Glyphs.of_cons (h : Glyphs (c :: cs)) (hc : c ≠ '\\') : Glyphs cs := by
  cases h with
  | plain _ h => exact h
  | escape | code | stray => exact absurd rfl hc

lemma isHexDigit_ne_backslash (h : Text.isHexDigit c = true) : c ≠ '\\' := by
  rintro rfl
  cases h

/-- Digits after an escaped `x` belong to it, also where a lexeme is made of `x` alone and plain
digits. -/
lemma Glyphs.backslash (h : Glyphs cs) (hline : c ≠ '\n') : Glyphs ('\\' :: c :: cs) := by
  by_cases hx : c = 'x'
  · subst hx
    by_cases hcode : StartsCode cs
    · obtain ⟨a, b, rest, rfl, ha, hb⟩ := hcode
      rw [isSome_hexDigit?] at ha hb
      exact .code ha hb
        ((h.of_cons (isHexDigit_ne_backslash ha)).of_cons (isHexDigit_ne_backslash hb))
    · exact .stray hcode h
  · exact .escape hx hline h

lemma glyphs_of_mem_star {quote : Char} {body : List Char} (h : body ∈ (quotedChar quote)∗) :
    Glyphs body := by
  obtain ⟨parts, rfl, hparts⟩ := Language.mem_kstar.mp h
  clear h
  induction parts with
  | nil => exact .nil
  | cons part parts ih =>
    obtain ⟨hpart, hparts⟩ := List.forall_mem_cons.mp hparts
    have hrest := ih hparts
    rcases mem_quotedChar.mp hpart with ⟨c, -, hc, -, rfl⟩ | ⟨c, hc, rfl⟩ | ⟨a, b, ha, hb, rfl⟩
    · exact .plain hc hrest
    · exact hrest.backslash hc
    · exact .code ha hb hrest

/-- After an `x` without two digits a reader stops or is left with an open escape. -/
lemma read_stray (h : ¬StartsCode cs) (value : List Char) :
    (cs.foldlM readChar (.code, value)).bind closeReading = none := by
  cases cs with
  | nil => rfl
  | cons a cs =>
    rw [List.foldlM_cons, readChar]
    cases ha : hexDigit? a with
    | none => rfl
    | some digit =>
      cases cs with
      | nil => rfl
      | cons b cs =>
        have hb : hexDigit? b = none := by
          by_contra hb
          exact h ⟨a, b, cs, rfl, by rw [ha]; rfl, Option.isSome_iff_ne_none.mpr hb⟩
        rw [Option.map_some, Option.bind_eq_bind, Option.bind_some, List.foldlM_cons, readChar, hb]
        rfl

/-- From the start of a character on, a reader finds what the decoder finds there. -/
lemma Glyphs.read (h : Glyphs cs) (value : List Char) :
    (cs.foldlM readChar (.start, value)).bind closeReading =
      (Literal.decode? cs).map (value ++ ·) := by
  have hmore (d : Char) (found : Option (List Char)) (value : List Char) :
      found.map ((value ++ [d]) ++ ·) = (found.map (d :: ·)).map (value ++ ·) := by
    cases found <;> simp
  induction h generalizing value with
  | nil => simp [closeReading, decode?_nil]
  | @plain c cs hc _ ih =>
    have hstep : readChar (.start, value) c = some (.start, value ++ [c]) := if_neg hc
    rw [List.foldlM_cons, hstep, decode?_plain hc, ← hmore]
    exact ih _
  | @escape c cs hx hline _ ih =>
    have hstep : readChar (.escape, value) c =
        (Literal.simpleEscape? c).map fun d => (.start, value ++ [d]) := by
      rw [readChar, if_neg hx, lookup_namedEscapes]
    change ((c :: cs).foldlM readChar (.escape, value)).bind closeReading = _
    rw [List.foldlM_cons, hstep, decode?_escape hx hline]
    cases Literal.simpleEscape? c with
    | none => rfl
    | some d =>
      rw [Option.bind_some, ← hmore]
      exact ih _
  | @code a b cs ha hb _ ih =>
    have hfirst : readChar (.code, value) a = some (.half (Text.hexDigitValue a), value) := by
      rw [readChar, hexDigit?_eq, ha]
      rfl
    have hsecond : readChar (.half (Text.hexDigitValue a), value) b =
        some (.start, value ++ [Literal.hexChar a b]) := by
      rw [readChar, hexDigit?_eq, hb]
      rfl
    change ((a :: b :: cs).foldlM readChar (.code, value)).bind closeReading = _
    rw [List.foldlM_cons, hfirst, Option.bind_eq_bind, Option.bind_some, List.foldlM_cons, hsecond,
      decode?_code ha hb, ← hmore]
    exact ih _
  | stray hcode _ ih =>
    rw [decode?_stray hcode]
    exact read_stray hcode value

lemma Glyphs.readBody_eq (h : Glyphs cs) : readBody cs = Literal.decode? cs := by
  rw [readBody, h.read]
  simp

/-- A body has no value exactly if it contains an escape that stands for nothing. -/
lemma Glyphs.decode?_eq_none_iff (h : Glyphs cs) :
    Literal.decode? cs = none ↔ OtherEscape cs := by
  induction h with
  | nil => exact iff_of_false (by simp [decode?_nil]) not_otherEscape_nil
  | plain hc _ ih => rw [decode?_plain hc, otherEscape_cons hc, Option.map_eq_none_iff, ih]
  | @escape c cs hx hline _ ih =>
    rw [decode?_escape hx hline, otherEscape_backslash, KnownEscape, lookup_namedEscapes, ← ih]
    cases Literal.simpleEscape? c <;> simp [hx]
  | @code a b cs ha hb _ ih =>
    have hknown : KnownEscape 'x' (a :: b :: cs) := .inr ⟨rfl, startsCode_of_digits ha hb⟩
    rw [decode?_code ha hb, otherEscape_backslash, otherEscape_cons (isHexDigit_ne_backslash ha),
      otherEscape_cons (isHexDigit_ne_backslash hb), Option.map_eq_none_iff, ih]
    simp [hknown]
  | @stray cs hcode _ ih =>
    have hunknown : ¬KnownEscape 'x' cs := by
      rintro (hnamed | ⟨-, hstarts⟩)
      · cases hnamed
      · exact hcode hstarts
    exact iff_of_true (decode?_stray hcode) (otherEscape_backslash.mpr (.inl hunknown))

/-- The literal has this body, which stands for the characters that a reader finds in it, if any. -/
structure ReadsAs (quote : Char) (literal : String) (body : List Char)
    (value : Option (List Char)) : Prop where
  quoted : literal.toList = quote :: (body ++ [quote])
  value_eq : value = readBody body
  refuses : value = none ↔ OtherEscape body

lemma body?_quoted (quote : Char) (body : List Char) :
    Literal.body? quote (quote :: (body ++ [quote])) = some body := by
  simp [Literal.body?]

lemma Glyphs.readsAs {quote : Char} {body : List Char} (h : Glyphs body)
    (hquoted : literal.toList = quote :: (body ++ [quote])) :
    ReadsAs quote literal body ((Literal.body? quote literal.toList).bind Literal.decode?) := by
  rw [hquoted, body?_quoted, Option.bind_some]
  exact ⟨hquoted, h.readBody_eq.symm, h.decode?_eq_none_iff⟩

/-- A character literal has a body that stands for one character or for none. -/
lemma exists_body_of_charLexeme {text : List Char} (h : CharLexeme text) :
    ∃ body, text = '\'' :: (body ++ ['\'']) ∧ Glyphs body ∧
      ∀ value, Literal.decode? body = some value → value.length = 1 := by
  cases h with
  | plain c hquote hescape hline =>
    refine ⟨[c], rfl, .plain hescape .nil, fun value hvalue => ?_⟩
    rw [decode?_plain hescape, decode?_nil] at hvalue
    cases hvalue
    rfl
  | escape c hline =>
    refine ⟨['\\', c], rfl, Glyphs.nil.backslash hline, fun value hvalue => ?_⟩
    by_cases hx : c = 'x'
    · subst hx
      rw [decode?_stray (by rintro ⟨_, _, _, ⟨⟩, -⟩)] at hvalue
      cases hvalue
    · rw [decode?_escape hx hline, decode?_nil] at hvalue
      obtain ⟨d, -, hd⟩ := Option.bind_eq_some_iff.mp hvalue
      cases hd
      rfl
  | code a b ha hb =>
    refine ⟨['\\', 'x', a, b], rfl, .code ha hb .nil, fun value hvalue => ?_⟩
    rw [decode?_code ha hb, decode?_nil] at hvalue
    cases hvalue
    rfl

lemma readsAs_char (h : CharLexeme literal.toList) :
    ∃ body, ReadsAs '\'' literal body ((Literal.char? literal).map fun c => [c]) ∧
      ∀ value, Literal.decode? body = some value →
        ∃ c, value = [c] ∧ Literal.char? literal = some c := by
  obtain ⟨body, hquoted, hglyphs, hone⟩ := exists_body_of_charLexeme h
  have hreads := hglyphs.readsAs hquoted
  have hbody : (Literal.body? '\'' literal.toList).bind Literal.decode? = Literal.decode? body := by
    rw [hquoted, body?_quoted, Option.bind_some]
  rw [hbody] at hreads
  refine ⟨body, ?_⟩
  rw [Literal.char?, hbody]
  cases hvalue : Literal.decode? body with
  | none =>
    rw [hvalue] at hreads
    exact ⟨hreads, fun value hsome => by cases hsome⟩
  | some value =>
    obtain ⟨c, rfl⟩ := List.length_eq_one_iff.mp (hone value hvalue)
    rw [hvalue] at hreads
    refine ⟨hreads, fun value hsome => ?_⟩
    cases hsome
    exact ⟨c, rfl, rfl⟩

lemma readsAs_string (h : literal.toList ∈ stringLexemes) :
    ∃ body, ReadsAs '"' literal body ((Literal.string? literal).map String.toList) := by
  obtain ⟨_, hliteral, hbody⟩ := mem_exactly_mul.mp h
  obtain ⟨body, hstar, _, rfl, rfl⟩ := Language.mem_mul.mp hbody
  have hlist : (Literal.string? literal).map String.toList =
      (Literal.body? '"' literal.toList).bind Literal.decode? := by
    rw [Literal.string?]
    cases (Literal.body? '"' literal.toList).bind Literal.decode? <;> simp
  rw [hlist]
  exact ⟨body, (glyphs_of_mem_star hstar).readsAs hliteral⟩

/-- The value of a character or string literal of any text is what a reader finds that goes through
the body from left to right, and there is none exactly if an escape in the body stands for nothing.
The body of a character literal that stands for anything stands for one character. -/
theorem literals_read_leftToRight {source : String} {tokens : List Token}
    (h : lex source = .ok tokens) (token : Token) (hmem : token ∈ tokens) :
    (token.kind = .charLiteral → ∃ body,
      ReadsAs '\'' token.value body ((Literal.char? token.value).map fun c => [c]) ∧
      ∀ value, Literal.decode? body = some value →
        ∃ c, value = [c] ∧ Literal.char? token.value = some c) ∧
    (token.kind = .stringLiteral → ∃ body,
      ReadsAs '"' token.value body ((Literal.string? token.value).map String.toList)) := by
  have hspelled : token.value.toList ∈ lexemesOf token.kind := (spelled_of_lex h hmem).1
  constructor
  · intro hkind
    rw [hkind] at hspelled
    exact readsAs_char (mem_charLexemes.mp hspelled)
  · intro hkind
    rw [hkind] at hspelled
    exact readsAs_string hspelled

/-- An escaped backslash before an `x`, an escaped quote, a code, and an `x` without digits. -/
def escapedSource : String := "\"\\\\x4\\\"\\x2a\" '\\x'"

def escapedTokens : List Token :=
  [ofLexeme ⟨0, 0⟩ .stringLiteral "\"\\\\x4\\\"\\x2a\"".toList,
    ofLexeme ⟨0, 13⟩ .charLiteral "'\\x'".toList]

theorem literals_read_escapedSource :
    lex escapedSource = .ok escapedTokens ∧
    (∃ body, ReadsAs '"' "\"\\\\x4\\\"\\x2a\"" body (some "\\x4\"*".toList)) ∧
    ∃ body, ReadsAs '\'' "'\\x'" body none := by
  have hlex : lex escapedSource = .ok escapedTokens := by decide +kernel
  have hstring : Literal.string? "\"\\\\x4\\\"\\x2a\"" = some "\\x4\"*" := by decide +kernel
  have hchar : Literal.char? "'\\x'" = none := by decide +kernel
  have hreadString : ∃ body, ReadsAs '"' "\"\\\\x4\\\"\\x2a\"" body
      ((Literal.string? "\"\\\\x4\\\"\\x2a\"").map String.toList) :=
    (literals_read_leftToRight hlex _ List.mem_cons_self).2 rfl
  have hreadChar : ∃ body, ReadsAs '\'' "'\\x'" body
      ((Literal.char? "'\\x'").map fun c => [c]) ∧ _ :=
    (literals_read_leftToRight hlex _ (List.mem_cons_of_mem _ List.mem_cons_self)).1 rfl
  rw [hstring] at hreadString
  rw [hchar] at hreadChar
  obtain ⟨body, hreads, -⟩ := hreadChar
  exact ⟨hlex, hreadString, body, hreads⟩

end Llama.Proofs
