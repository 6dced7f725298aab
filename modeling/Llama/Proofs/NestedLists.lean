import Llama.Text.Quoted
import Mathlib.Tactic.Common

/-!
# Nested lists as text

A nested list has words, numbers, quoted characters and quoted strings as its leaves, and lists in
parentheses or brackets. Its text can be read in one way only: the first characters tell what it
is, a leaf ends where its characters or its quotes end, and a list at its closing mark.
-/

namespace Llama.Proofs

open Text

variable {quote closing : Char}

/-- The value of hexadecimal digits. -/
def hexValue (cs : List Char) : Nat := cs.foldl (fun n c => 16 * n + hexDigitValue c) 0

lemma hexDigitValue_digitChar : ∀ d < 16, hexDigitValue d.digitChar = d := by decide

lemma hexValue_hexDigits (n : Nat) : hexValue (hexDigits n) = n := by
  induction n using Nat.strongRecOn with
  | ind n ih =>
    by_cases hn : n < 16
    · rw [hexDigits, Nat.toDigits_of_lt_base hn]
      simp [hexValue, hexDigitValue_digitChar n hn]
    · have hdigit := hexDigitValue_digitChar (n % 16) (Nat.mod_lt _ (by decide))
      have hfront := ih (n / 16) (by omega)
      rw [hexDigits, Nat.toDigits_of_base_le (by decide) (by omega), hexValue, List.foldl_append]
      rw [hexDigits, hexValue] at hfront
      rw [hfront, List.foldl_cons, List.foldl_nil, hdigit]
      omega

lemma brace_notMem_hexDigits (n : Nat) : '\x7d' ∉ hexDigits n := by
  have hdigits : ∀ d < 16, d.digitChar ≠ '\x7d' := by decide
  induction n using Nat.strongRecOn with
  | ind n ih =>
    by_cases hn : n < 16
    · rw [hexDigits, Nat.toDigits_of_lt_base hn, List.mem_singleton]
      exact (hdigits n hn).symm
    · rw [hexDigits, Nat.toDigits_of_base_le (by decide) (by omega), List.mem_append,
        List.mem_singleton]
      rintro (hfront | hlast)
      · exact ih (n / 16) (by omega) hfront
      · exact hdigits (n % 16) (Nat.mod_lt _ (by decide)) hlast.symm

/-- Reads back one character of a quoted text, with what is left. -/
def readEscaped : List Char → Option (Char × List Char)
  | '\\' :: 'u' :: '\x7b' :: rest =>
    some (Char.ofNat (hexValue (rest.takeWhile (· != '\x7d'))),
      (rest.dropWhile (· != '\x7d')).tail)
  | '\\' :: '0' :: rest => some ('\x00', rest)
  | '\\' :: 't' :: rest => some ('\t', rest)
  | '\\' :: 'r' :: rest => some ('\r', rest)
  | '\\' :: 'n' :: rest => some ('\n', rest)
  | '\\' :: c :: rest => some (c, rest)
  | c :: rest => some (c, rest)
  | [] => none

/-- The two characters that enclose a quoted text. -/
def isQuote (c : Char) : Bool := c == '\'' || c == '"'

lemma readEscaped_codePointEscape (c : Char) (rest : List Char) :
    readEscaped (codePointEscape c ++ rest) = some (c, rest) := by
  have hdigits : ∀ d ∈ hexDigits c.toNat, (d != '\x7d') = true := by
    intro d hd
    rw [bne_iff_ne]
    rintro rfl
    exact brace_notMem_hexDigits _ hd
  have htext : codePointEscape c ++ rest =
      '\\' :: 'u' :: '\x7b' :: (hexDigits c.toNat ++ '\x7d' :: rest) := by
    simp [codePointEscape]
  rw [htext, readEscaped, List.takeWhile_append_of_pos hdigits,
    List.dropWhile_append_of_pos hdigits, List.takeWhile_cons_of_neg (by decide),
    List.dropWhile_cons_of_neg (by decide), List.append_nil, hexValue_hexDigits, Char.ofNat_toNat]
  rfl

/-- A character is read back from the way it is written between quotes. -/
lemma readEscaped_escape (hquote : isQuote quote = true) (c : Char) (rest : List Char) :
    readEscaped (escape quote c ++ rest) = some (c, rest) := by
  unfold escape
  split
  next h => rw [h]; rfl
  split
  next h => rw [h]; rfl
  split
  next h => rw [h]; rfl
  split
  next h => rw [h]; rfl
  split
  next h =>
    simp only [isQuote, Bool.or_eq_true, beq_iff_eq, decide_eq_true_eq] at hquote h
    rcases h with rfl | rfl
    · rcases hquote with rfl | rfl <;> rfl
    · rfl
  next h =>
    simp only [Bool.or_eq_true, decide_eq_true_eq, not_or] at h
    split
    next =>
      show readEscaped (c :: rest) = _
      rw [readEscaped.eq_def]
      split <;> simp_all
    next => exact readEscaped_codePointEscape c rest

/-- No character between quotes is written with the quote in front. -/
lemma head?_escape (hquote : isQuote quote = true) (c : Char) :
    ∃ d tail, escape quote c = d :: tail ∧ d ≠ quote := by
  have hbackslash : '\\' ≠ quote := by
    rintro rfl
    cases hquote
  unfold escape
  split
  next => exact ⟨_, _, rfl, hbackslash⟩
  split
  next => exact ⟨_, _, rfl, hbackslash⟩
  split
  next => exact ⟨_, _, rfl, hbackslash⟩
  split
  next => exact ⟨_, _, rfl, hbackslash⟩
  split
  next => exact ⟨_, _, rfl, hbackslash⟩
  next h =>
    simp only [Bool.or_eq_true, decide_eq_true_eq, not_or] at h
    split
    next => exact ⟨c, [], rfl, h.1⟩
    next => exact ⟨_, _, rfl, hbackslash⟩

/-- A quoted text ends at its second quote. -/
lemma quoted_unique (hquote : isQuote quote = true) {cs cs' r r' : List Char}
    (h : cs.flatMap (escape quote) ++ quote :: r = cs'.flatMap (escape quote) ++ quote :: r') :
    cs = cs' ∧ r = r' := by
  induction cs generalizing cs' with
  | nil =>
    cases cs' with
    | nil => exact ⟨rfl, (List.cons.inj h).2⟩
    | cons c' cs' =>
      obtain ⟨d, tail, hescape, hd⟩ := head?_escape hquote c'
      rw [List.flatMap_cons, hescape] at h
      exact absurd (List.cons.inj h).1.symm hd
  | cons c cs ih =>
    cases cs' with
    | nil =>
      obtain ⟨d, tail, hescape, hd⟩ := head?_escape hquote c
      rw [List.flatMap_cons, hescape] at h
      exact absurd (List.cons.inj h).1 hd
    | cons c' cs' =>
      rw [List.flatMap_cons, List.flatMap_cons, List.append_assoc, List.append_assoc] at h
      have hread := congrArg readEscaped h
      rw [readEscaped_escape hquote, readEscaped_escape hquote] at hread
      obtain ⟨rfl, hrest⟩ := Prod.mk.inj (Option.some.inj hread)
      obtain ⟨rfl, rfl⟩ := ih hrest
      exact ⟨rfl, rfl⟩

/-- A nested list. -/
inductive Sexp where
  | word (text : String)
  | int (value : Int)
  | char (value : Char)
  | string (value : String)
  | list (items : List Sexp)
  | bracket (items : List Sexp)

namespace Sexp

mutual

/-- The text of a nested list. -/
def render : Sexp → List Char
  | .word text => text.toList
  | .int value => (toString value).toList
  | .char value => quoted '\'' [value]
  | .string value => quoted '"' value.toList
  | .list items => '(' :: (renderItems items ++ [')'])
  | .bracket items => '[' :: (renderItems items ++ [']'])

/-- Items with single spaces between them. -/
def renderItems : List Sexp → List Char
  | [] => []
  | item :: rest => item.render ++ renderRest rest

/-- Items with a space before each. -/
def renderRest : List Sexp → List Char
  | [] => []
  | item :: rest => ' ' :: (item.render ++ renderRest rest)

end

end Sexp

/-- What a nested list is at its outside. -/
inductive Shape where
  | word | int | char | string | list | bracket
deriving DecidableEq

/-- The first characters of a text tell what it is. -/
def shapeOf : List Char → Shape
  | [] => .word
  | c :: rest =>
    if c = '(' then .list
    else if c = '[' then .bracket
    else if c = '\'' then .char
    else if c = '"' then .string
    else if c.isDigit || (c = '-' && rest.head?.any Char.isDigit) then .int
    else .word

def Sexp.shape : Sexp → Shape
  | .word _ => .word
  | .int _ => .int
  | .char _ => .char
  | .string _ => .string
  | .list _ => .list
  | .bracket _ => .bracket

/-- The characters that no word and no number has. -/
def isDelimiter (c : Char) : Bool := [' ', '(', ')', '[', ']', '\n'].contains c

/-- The characters of a word: there is one, none is a delimiter, and the first ones are not those
of a number or a quoted text. -/
structure IsPlain (text : List Char) : Prop where
  ne_nil : text ≠ []
  undelimited : ∀ c ∈ text, isDelimiter c = false
  shape : shapeOf text = .word

mutual

/-- All words of a nested list are words. -/
def Sexp.Proper : Sexp → Prop
  | .word text => IsPlain text.toList
  | .list items | .bracket items => Sexp.AllProper items
  | _ => True

def Sexp.AllProper : List Sexp → Prop
  | [] => True
  | item :: rest => item.Proper ∧ Sexp.AllProper rest

end

/-- What follows a nested list: nothing, or what delimits it. -/
def Delimits (r : List Char) : Prop := ∀ c ∈ r.head?, c ∈ [' ', ')', ']', '\n']

section

variable {text text' r r' : List Char}

/-- A run of undelimited characters ends at the first delimiter. -/
lemma undelimited_unique (h : ∀ c ∈ text, isDelimiter c = false)
    (h' : ∀ c ∈ text', isDelimiter c = false) (hr : Delimits r) (hr' : Delimits r')
    (heq : text ++ r = text' ++ r') : text = text' ∧ r = r' := by
  have htake : ∀ {text r : List Char}, (∀ c ∈ text, isDelimiter c = false) → Delimits r →
      (text ++ r).takeWhile (fun c => !isDelimiter c) = text := by
    intro text r htext hr
    rw [List.takeWhile_append_of_pos fun c hc => by simp [htext c hc]]
    cases r with
    | nil => simp
    | cons c r =>
      have hc : isDelimiter c = true := by
        have hmem := hr c rfl
        simp only [List.mem_cons, List.not_mem_nil, or_false] at hmem
        rcases hmem with rfl | rfl | rfl | rfl <;> rfl
      rw [List.takeWhile_cons_of_neg (by simp [hc]), List.append_nil]
  have hsame : text = text' := by rw [← htake h hr, heq, htake h' hr']
  subst hsame
  exact ⟨rfl, List.append_cancel_left heq⟩

/-- The text of an integer is its digits, after a dash if it is negative. -/
lemma toString_int (value : Int) : ∃ digits, digits ≠ [] ∧ (∀ c ∈ digits, c.isDigit = true) ∧
    ((toString value).toList = digits ∧ value = Nat.ofDigitChars 10 digits 0 ∨
      (toString value).toList = '-' :: digits ∧ value = -Nat.ofDigitChars 10 digits 0) := by
  have hdigits (n : Nat) : ∀ c ∈ Nat.toDigits 10 n, c.isDigit = true :=
    fun c hc => Nat.isDigit_of_mem_toDigits (by decide) (by decide) hc
  have hvalue (n : Nat) : Nat.ofDigitChars 10 (Nat.toDigits 10 n) 0 = n :=
    Nat.ofDigitChars_toDigits (by decide) (by decide)
  cases value with
  | ofNat n =>
    refine ⟨Nat.toDigits 10 n, Nat.toDigits_ne_nil, hdigits n, .inl ⟨Nat.toList_repr, ?_⟩⟩
    rw [hvalue]
    rfl
  | negSucc n =>
    refine ⟨Nat.toDigits 10 (n + 1), Nat.toDigits_ne_nil, hdigits _, .inr ⟨?_, ?_⟩⟩
    · show ("-" ++ Nat.repr (n + 1)).toList = _
      rw [String.toList_append, Nat.toList_repr]
      rfl
    · rw [hvalue]
      rfl

lemma toString_int_inj {a b : Int} (h : (toString a).toList = (toString b).toList) : a = b := by
  obtain ⟨digits, -, hdigits, ⟨htext, rfl⟩ | ⟨htext, rfl⟩⟩ := toString_int a <;>
    obtain ⟨digits', -, hdigits', ⟨htext', rfl⟩ | ⟨htext', rfl⟩⟩ := toString_int b <;>
    rw [htext, htext'] at h
  · rw [h]
  · cases hdigits '-' (h ▸ List.mem_cons_self)
  · cases hdigits' '-' (h ▸ List.mem_cons_self)
  · rw [(List.cons.inj h).2]

lemma isDelimiter_of_isDigit {c : Char} (h : c.isDigit = true) : isDelimiter c = false := by
  have hother : ∀ d, d.isDigit = false → c ≠ d := by
    rintro d hd rfl
    rw [h] at hd
    cases hd
  simp [isDelimiter, hother]

lemma undelimited_int (value : Int) : ∀ c ∈ (toString value).toList, isDelimiter c = false := by
  obtain ⟨digits, -, hdigits, htext⟩ := toString_int value
  rcases htext with ⟨htext, -⟩ | ⟨htext, -⟩ <;> rw [htext]
  · exact fun c hc => isDelimiter_of_isDigit (hdigits c hc)
  · exact List.forall_mem_cons.mpr ⟨rfl, fun c hc => isDelimiter_of_isDigit (hdigits c hc)⟩

lemma shapeOf_digit {d : Char} (hd : d.isDigit = true) (rest : List Char) :
    shapeOf (d :: rest) = .int := by
  have hother : ∀ c, c.isDigit = false → d ≠ c := by
    rintro c hc rfl
    rw [hd] at hc
    cases hc
  simp [shapeOf, hother, hd]

lemma shapeOf_int (value : Int) (r : List Char) :
    shapeOf ((toString value).toList ++ r) = .int := by
  obtain ⟨digits, hne, hdigits, htext⟩ := toString_int value
  obtain ⟨d, ds, rfl⟩ := List.exists_cons_of_ne_nil hne
  have hd := hdigits d List.mem_cons_self
  rcases htext with ⟨htext, -⟩ | ⟨htext, -⟩ <;> rw [htext]
  · exact shapeOf_digit hd _
  · simp [shapeOf, hd]

lemma shapeOf_single {c d : Char} (cs : List Char) (h : shapeOf [c] = .word)
    (hd : d.isDigit = false) : shapeOf (c :: d :: cs) = .word := by
  simpa [shapeOf, hd] using h

lemma IsPlain.shapeOf_append (h : IsPlain text) (hr : Delimits r) :
    shapeOf (text ++ r) = .word := by
  obtain ⟨c, tail, rfl⟩ := List.exists_cons_of_ne_nil h.ne_nil
  cases tail with
  | cons t tail => exact h.shape
  | nil =>
    cases r with
    | nil => exact h.shape
    | cons d r =>
      refine shapeOf_single r h.shape ?_
      have hmem := hr d rfl
      simp only [List.mem_cons, List.not_mem_nil, or_false] at hmem
      rcases hmem with rfl | rfl | rfl | rfl <;> rfl

lemma shapeOf_render {item : Sexp} (h : item.Proper) (hr : Delimits r) :
    shapeOf (item.render ++ r) = item.shape := by
  cases item with
  | word text => exact IsPlain.shapeOf_append h hr
  | int value => exact shapeOf_int value r
  | _ => rfl

/-- No nested list starts with a closing mark. -/
lemma render_ne_closing {item : Sexp} (h : item.Proper) (hclosing : closing = ')' ∨ closing = ']')
    (r r' : List Char) : item.render ++ r ≠ closing :: r' := by
  have hleaf {text : List Char} (hne : text ≠ []) (htext : ∀ c ∈ text, isDelimiter c = false) :
      text ++ r ≠ closing :: r' := by
    obtain ⟨c, tail, rfl⟩ := List.exists_cons_of_ne_nil hne
    intro heq
    have hc := htext c List.mem_cons_self
    rw [(List.cons.inj heq).1] at hc
    rcases hclosing with rfl | rfl <;> cases hc
  have hmark {c : Char} {tail : List Char} (hc : c ≠ ')' ∧ c ≠ ']') :
      c :: tail ≠ closing :: r' := by
    intro heq
    rcases hclosing with rfl | rfl
    · exact hc.1 (List.cons.inj heq).1
    · exact hc.2 (List.cons.inj heq).1
  cases item with
  | word text => exact hleaf h.ne_nil h.undelimited
  | int value =>
    have hne : (toString value).toList ≠ [] := by
      obtain ⟨digits, hdigits, -, htext⟩ := toString_int value
      rcases htext with ⟨htext, -⟩ | ⟨htext, -⟩ <;> rw [htext]
      · exact hdigits
      · exact List.cons_ne_nil _ _
    exact hleaf hne (undelimited_int value)
  | char value => exact hmark (by decide)
  | string value => exact hmark (by decide)
  | list items => exact hmark (by decide)
  | bracket items => exact hmark (by decide)

end

/-- Only one nested list is read from the text, before whatever delimits it. -/
def ReadsOnce (item : Sexp) : Prop :=
  ∀ item' r r', item.Proper → item'.Proper → Delimits r → Delimits r' →
    item.render ++ r = item'.render ++ r' → item = item' ∧ r = r'

/-- Only these items are read from the text, before whatever closes them. -/
def RestReadsOnce (items : List Sexp) : Prop :=
  ∀ items' closing r r', (closing = ')' ∨ closing = ']') →
    Sexp.AllProper items → Sexp.AllProper items' →
    Sexp.renderRest items ++ closing :: r = Sexp.renderRest items' ++ closing :: r' →
    items = items' ∧ r = r'

lemma delimits_renderRest (items : List Sexp) (hclosing : closing = ')' ∨ closing = ']')
    (r : List Char) : Delimits (Sexp.renderRest items ++ closing :: r) := by
  intro c hc
  cases items with
  | nil =>
    obtain rfl : closing = c := Option.some.inj hc
    rcases hclosing with rfl | rfl <;> simp
  | cons item items =>
    obtain rfl : ' ' = c := Option.some.inj hc
    simp

lemma restReadsOnce_nil : RestReadsOnce [] := by
  intro items' closing r r' hclosing _ _ h
  cases items' with
  | nil => exact ⟨rfl, (List.cons.inj h).2⟩
  | cons item items' =>
    have hspace : closing = ' ' := (List.cons.inj h).1
    rcases hclosing with rfl | rfl <;> exact absurd hspace (by decide)

lemma restReadsOnce_cons {item : Sexp} {items : List Sexp} (hitem : ReadsOnce item)
    (hitems : RestReadsOnce items) : RestReadsOnce (item :: items) := by
  intro items' closing r r' hclosing hproper hproper' h
  cases items' with
  | nil =>
    have hspace : ' ' = closing := (List.cons.inj h).1
    rcases hclosing with rfl | rfl <;> exact absurd hspace (by decide)
  | cons item' items' =>
    have htail : item.render ++ (Sexp.renderRest items ++ closing :: r) =
        item'.render ++ (Sexp.renderRest items' ++ closing :: r') := by
      simpa [Sexp.renderRest] using h
    obtain ⟨rfl, hrest⟩ := hitem item' _ _ hproper.1 hproper'.1
      (delimits_renderRest items hclosing r) (delimits_renderRest items' hclosing r') htail
    obtain ⟨rfl, rfl⟩ := hitems items' closing r r' hclosing hproper.2 hproper'.2 hrest
    exact ⟨rfl, rfl⟩

/-- The items of a list are read in one way, up to the mark that closes it. -/
lemma renderItems_unique {items items' : List Sexp} {r r' : List Char}
    (hitems : RestReadsOnce items) (hclosing : closing = ')' ∨ closing = ']')
    (hproper : Sexp.AllProper items) (hproper' : Sexp.AllProper items')
    (h : Sexp.renderItems items ++ closing :: r = Sexp.renderItems items' ++ closing :: r') :
    items = items' ∧ r = r' := by
  cases items with
  | nil =>
    cases items' with
    | nil => exact ⟨rfl, (List.cons.inj h).2⟩
    | cons item' items' =>
      rw [Sexp.renderItems, Sexp.renderItems, List.append_assoc] at h
      exact absurd h.symm (render_ne_closing hproper'.1 hclosing _ _)
  | cons item items =>
    cases items' with
    | nil =>
      rw [Sexp.renderItems, Sexp.renderItems, List.append_assoc] at h
      exact absurd h (render_ne_closing hproper.1 hclosing _ _)
    | cons item' items' =>
      refine hitems (item' :: items') closing r r' hclosing hproper hproper' ?_
      rw [Sexp.renderRest, Sexp.renderRest]
      exact congrArg (List.cons ' ') h

lemma readsOnce_of_shape {item : Sexp}
    (h : ∀ item' r r', item'.shape = item.shape → item.Proper → item'.Proper → Delimits r →
      Delimits r' → item.render ++ r = item'.render ++ r' → item = item' ∧ r = r') :
    ReadsOnce item := by
  intro item' r r' hproper hproper' hr hr' heq
  refine h item' r r' ?_ hproper hproper' hr hr' heq
  rw [← shapeOf_render hproper hr, heq, shapeOf_render hproper' hr']

lemma readsOnce_word (text : String) : ReadsOnce (.word text) := by
  refine readsOnce_of_shape fun item' r r' hshape hproper hproper' hr hr' heq => ?_
  cases item' with
  | word text' =>
    obtain ⟨htext, hrest⟩ :=
      undelimited_unique hproper.undelimited hproper'.undelimited hr hr' heq
    exact ⟨by rw [String.toList_inj.mp htext], hrest⟩
  | _ => cases hshape

lemma readsOnce_int (value : Int) : ReadsOnce (.int value) := by
  refine readsOnce_of_shape fun item' r r' hshape _ _ hr hr' heq => ?_
  cases item' with
  | int value' =>
    obtain ⟨htext, hrest⟩ :=
      undelimited_unique (undelimited_int value) (undelimited_int value') hr hr' heq
    exact ⟨by rw [toString_int_inj htext], hrest⟩
  | _ => cases hshape

lemma readsOnce_char (value : Char) : ReadsOnce (.char value) := by
  refine readsOnce_of_shape fun item' r r' hshape _ _ _ _ heq => ?_
  cases item' with
  | char value' =>
    have hbody : [value].flatMap (escape '\'') ++ '\'' :: r =
        [value'].flatMap (escape '\'') ++ '\'' :: r' := by
      simpa [Sexp.render, quoted] using heq
    obtain ⟨hvalue, hrest⟩ := quoted_unique rfl hbody
    exact ⟨by rw [(List.cons.inj hvalue).1], hrest⟩
  | _ => cases hshape

lemma readsOnce_string (value : String) : ReadsOnce (.string value) := by
  refine readsOnce_of_shape fun item' r r' hshape _ _ _ _ heq => ?_
  cases item' with
  | string value' =>
    have hbody : value.toList.flatMap (escape '"') ++ '"' :: r =
        value'.toList.flatMap (escape '"') ++ '"' :: r' := by
      simpa [Sexp.render, quoted] using heq
    obtain ⟨hvalue, hrest⟩ := quoted_unique rfl hbody
    exact ⟨by rw [String.toList_inj.mp hvalue], hrest⟩
  | _ => cases hshape

lemma readsOnce_list {items : List Sexp} (h : RestReadsOnce items) : ReadsOnce (.list items) := by
  refine readsOnce_of_shape fun item' r r' hshape hproper hproper' _ _ heq => ?_
  cases item' with
  | list items' =>
    have hbody : Sexp.renderItems items ++ ')' :: r = Sexp.renderItems items' ++ ')' :: r' := by
      simpa [Sexp.render] using heq
    obtain ⟨rfl, hrest⟩ := renderItems_unique h (.inl rfl) hproper hproper' hbody
    exact ⟨rfl, hrest⟩
  | _ => cases hshape

lemma readsOnce_bracket {items : List Sexp} (h : RestReadsOnce items) :
    ReadsOnce (.bracket items) := by
  refine readsOnce_of_shape fun item' r r' hshape hproper hproper' _ _ heq => ?_
  cases item' with
  | bracket items' =>
    have hbody : Sexp.renderItems items ++ ']' :: r = Sexp.renderItems items' ++ ']' :: r' := by
      simpa [Sexp.render] using heq
    obtain ⟨rfl, hrest⟩ := renderItems_unique h (.inr rfl) hproper hproper' hbody
    exact ⟨rfl, hrest⟩
  | _ => cases hshape

mutual

/-- The text of a nested list is read in one way only. -/
theorem readsOnce : ∀ item, ReadsOnce item
  | .word text => readsOnce_word text
  | .int value => readsOnce_int value
  | .char value => readsOnce_char value
  | .string value => readsOnce_string value
  | .list items => readsOnce_list (restReadsOnce items)
  | .bracket items => readsOnce_bracket (restReadsOnce items)

theorem restReadsOnce : ∀ items, RestReadsOnce items
  | [] => restReadsOnce_nil
  | item :: items => restReadsOnce_cons (readsOnce item) (restReadsOnce items)

end

end Llama.Proofs
