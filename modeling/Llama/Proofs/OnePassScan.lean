import Llama.Proofs.LexemeMatching
import Llama.Proofs.TokenReading
import Mathlib.Data.List.Forall2
import Mathlib.Data.List.TakeWhile

/-!
# Scanning in one pass

A text is cut into tokens after its comments have been blanked out. A scanner that goes through
the text once, and skips blanks and comments where a token may start, finds the same tokens,
unless a character literal follows a numeral or another character literal directly.
-/

namespace Llama.Proofs

open Lexeme Comment Token

variable {quote c : Char} {cs rest lexeme : List Char} {first : Char → Bool} {kind : TokenKind}
  {before : Option Char}

/-- A part of a text. -/
inductive Piece where
  /-- A blank or a comment. -/
  | gap
  | token (kind : TokenKind) (lexeme : List Char)
  /-- No lexeme starts here. -/
  | junk
deriving DecidableEq

/-- What follows a comment that ends with its line. -/
def afterLine (cs : List Char) : List Char := cs.dropWhile fun c => c != '\n'

/-- What follows block comments, of which `nested + 1` are open. -/
def afterBlock : Nat → List Char → List Char
  | _, [] => []
  | nested, '(' :: '*' :: cs => afterBlock (nested + 1) cs
  | 0, '*' :: ')' :: cs => cs
  | nested + 1, '*' :: ')' :: cs => afterBlock nested cs
  | nested, _ :: cs => afterBlock nested cs

lemma length_afterLine_le (cs : List Char) : (afterLine cs).length ≤ cs.length :=
  (List.dropWhile_sublist _).length_le

lemma length_afterBlock_le (nested : Nat) (cs : List Char) :
    (afterBlock nested cs).length ≤ cs.length := by
  fun_induction afterBlock nested cs <;> simp only [List.length_cons, List.length_nil] <;> omega

/-- The parts of a text, in order: a comment is skipped where a token may start, and otherwise
the longest lexeme is taken. -/
def pieces : List Char → List Piece
  | [] => []
  | '-' :: '-' :: cs => .gap :: pieces (afterLine cs)
  | '(' :: '*' :: cs => .gap :: pieces (afterBlock 0 cs)
  | c :: cs =>
    if isBlank c then .gap :: pieces cs
    else
      match longest? (c :: cs) with
      | none => [.junk]
      | some (kind, lexeme) => .token kind lexeme :: pieces (cs.drop (lexeme.length - 1))
termination_by cs => cs.length
decreasing_by
  · have hle := length_afterLine_le cs
    simp only [List.length_cons]
    omega
  · have hle := length_afterBlock_le 0 cs
    simp only [List.length_cons]
    omega
  · simp
  · simp only [List.length_drop, List.length_cons]
    omega

/-- The words of the tokens among the parts of a text, if there is no junk. -/
def wordsOf : List Piece → Option (List Word)
  | [] => some []
  | .gap :: rest => wordsOf rest
  | .token kind lexeme :: rest =>
    (wordsOf rest).map fun words => (kind, String.ofList lexeme) :: words
  | .junk :: _ => none

/-- The words of a text that is scanned in one pass. -/
def onePass (source : String) : Option (List Word) := wordsOf (pieces source.toList)

/-- A character literal follows a numeral or another character literal directly, and a quote after
its last character opens a literal. Blanking takes its first quote for the end of a name. -/
def misread : Piece → Piece → Bool
  | .token kind _, .token .charLiteral lexeme =>
    [.intLiteral, .floatLiteral, .charLiteral].contains kind &&
      !continuesName lexeme.dropLast.getLast?
  | _, _ => false

attribute [local simp] blankFrom

section

variable {before : Option Char} {c : Char} {cs : List Char}

lemma blankFrom_code (h : startsComment (c :: cs) = false) :
    blankFrom (.code before) (c :: cs) =
      if c = '"' || (c = '\'' && !continuesName before) then c :: blankFrom (.literal c) cs
      else c :: blankFrom (.code (some c)) cs := by
  rw [blankFrom]
  · rintro cs' rfl rfl
    cases h
  · rintro cs' rfl rfl
    cases h

lemma startsComment_of_ne (hdash : c ≠ '-') (hparenthesis : c ≠ '(') :
    startsComment (c :: cs) = false := by
  unfold startsComment
  split
  next heq => exact absurd (List.cons.inj heq).1 hdash
  next heq => exact absurd (List.cons.inj heq).1 hparenthesis
  next => rfl

lemma startsComment_pair {d : Char} (hdash : d ≠ '-') (hparenthesis : c ≠ '(') :
    startsComment (c :: d :: cs) = false := by
  unfold startsComment
  split
  next heq => exact absurd (List.cons.inj (List.cons.inj heq).2).1 hdash
  next heq => exact absurd (List.cons.inj heq).1 hparenthesis
  next => rfl

lemma blankFrom_plain (h : startsComment (c :: cs) = false) (hquote : c ≠ '"')
    (hprime : c = '\'' → continuesName before = true) :
    blankFrom (.code before) (c :: cs) = c :: blankFrom (.code (some c)) cs := by
  rw [blankFrom_code h, if_neg]
  intro hopens
  simp only [Bool.or_eq_true, Bool.and_eq_true, decide_eq_true_eq, Bool.not_eq_true'] at hopens
  rcases hopens with hc | ⟨hc, hbefore⟩
  · exact hquote hc
  · rw [hprime hc] at hbefore
    cases hbefore

lemma blankFrom_quote (h : continuesName before = false) :
    blankFrom (.code before) ('\'' :: cs) = '\'' :: blankFrom (.literal '\'') cs := by
  rw [blankFrom_code (startsComment_of_ne (by decide) (by decide)), h]
  rfl

lemma blankFrom_string :
    blankFrom (.code before) ('"' :: cs) = '"' :: blankFrom (.literal '"') cs := by
  rw [blankFrom_code (startsComment_of_ne (by decide) (by decide))]
  rfl

/-- Whether the next character stays as it is, unless a comment starts with it. -/
def keepsText : Region → Bool
  | .code _ | .literal _ => true
  | .block _ | .line => false

lemma exists_blankFrom_cons (before : Option Char) (h : startsComment (c :: cs) = false) :
    ∃ region, keepsText region = true ∧
      blankFrom (.code before) (c :: cs) = c :: blankFrom region cs := by
  rw [blankFrom_code h]
  split
  · exact ⟨.literal c, rfl, rfl⟩
  · exact ⟨.code (some c), rfl, rfl⟩

/-- Up to the first comment a text is left as it is. -/
lemma veiled_blankFrom (region : Region) (cs : List Char) (h : keepsText region = true) :
    Veiled cs (blankFrom region cs) := by
  fun_induction blankFrom region cs with
  | case1 => exact .nil
  | case2 => exact .block _ _
  | case3 => exact .line _ _
  | case4 before c cs _ _ _ ih => exact .keep c (ih rfl)
  | case5 before c cs _ _ _ ih => exact .keep c (ih rfl)
  | case12 quote c cs ih => exact .keep '\\' (.keep c (ih rfl))
  | case13 quote c cs _ _ ih => exact .keep c (ih rfl)
  | case14 quote c cs _ _ ih => exact .keep c (ih rfl)
  | _ => cases h

lemma blankFrom_literal (hescape : c ≠ '\\') :
    blankFrom (.literal quote) (c :: cs) =
      c :: blankFrom (if c = quote || c = '\n' then .code (some c) else .literal quote) cs := by
  rw [blankFrom]
  · split <;> rfl
  · exact fun _ _ hc _ => hescape hc

lemma blankFrom_literal_keep (hescape : c ≠ '\\') (hquote : c ≠ quote) (hline : c ≠ '\n') :
    blankFrom (.literal quote) (c :: cs) = c :: blankFrom (.literal quote) cs := by
  rw [blankFrom_literal hescape, if_neg]
  simp [hquote, hline]

lemma blankFrom_literal_close (hescape : quote ≠ '\\') :
    blankFrom (.literal quote) (quote :: cs) = quote :: blankFrom (.code (some quote)) cs := by
  rw [blankFrom_literal hescape, if_pos (by simp)]

/-- A string literal is left as it is. -/
lemma stringBody?_blankFrom (cs : List Char) :
    stringBody? (blankFrom (.literal '"') cs) = stringBody? cs := by
  fun_induction stringBody? cs with
  | case1 cs =>
    rw [blankFrom_literal_close (by decide)]
    rfl
  | case2 cs =>
    rw [blankFrom]
    rfl
  | case3 c cs hc ih =>
    rw [blankFrom, stringBody?, if_neg hc, ih]
  | case4 c cs hquote hlast hc =>
    by_cases hescape : c = '\\'
    · cases cs with
      | nil => subst hescape; rfl
      | cons d cs => exact (hlast d cs hescape rfl).elim
    · have hline : c = '\n' := by simpa [hescape] using hc
      subst hline
      rw [blankFrom_literal hescape]
      rfl
  | case5 c cs hquote _ hc ih =>
    simp only [Bool.or_eq_true, decide_eq_true_eq, not_or] at hc
    rw [blankFrom_literal_keep hc.1 hquote hc.2, stringBody?, ih]
    · simp [hc]
    · exact hquote
    · exact fun _ _ h _ => hc.1 h
  | case6 => rfl

/-- The lexeme in front of a text is the same when its comments are blanked out. -/
lemma longest?_blankFrom (before : Option Char) (h : startsComment (c :: cs) = false) :
    longest? (blankFrom (.code before) (c :: cs)) = longest? (c :: cs) := by
  by_cases hc : c = '"'
  · subst hc
    rw [blankFrom_string]
    refine longest?_congr fun kind => ?_
    cases htext : kind.text with
    | some text =>
      obtain ⟨d, rest, hspelling, hquote, -⟩ := exists_of_isSpelling (isSpelling_text htext)
      rw [ofKind?_of_text htext, ofKind?_of_text htext, hspelling]
      simp [hquote]
    | none =>
      rcases kind_of_text_eq_none htext with rfl | rfl | rfl | rfl | rfl | rfl
      · rfl
      · rfl
      · rfl
      · rfl
      · simp [ofKind?, char?]
      · simp only [ofKind?, string?, stringBody?_blankFrom]
  · obtain ⟨region, hregion, hblanked⟩ := exists_blankFrom_cons before h
    rw [hblanked]
    exact longest?_congr fun kind => ((veiled_blankFrom region cs hregion).ofKind? hc kind).symm

end

/-- What blanking makes of a character of a comment. -/
def blankOut (c : Char) : Char := if c = '\n' then '\n' else ' '

lemma isBlank_blankOut (c : Char) : isBlank (blankOut c) = true := by
  unfold blankOut
  split <;> rfl

/-- What follows the comment that a text starts with. -/
def afterComment? : List Char → Option (List Char)
  | '-' :: '-' :: cs => some (afterLine cs)
  | '(' :: '*' :: cs => some (afterBlock 0 cs)
  | _ => none

lemma blankFrom_line (cs : List Char) :
    ∃ comment, cs = comment ++ afterLine cs ∧
      blankFrom .line cs = comment.map blankOut ++ blankFrom (.code none) (afterLine cs) := by
  induction cs with
  | nil => exact ⟨[], rfl, rfl⟩
  | cons c cs ih =>
    by_cases hc : c = '\n'
    · subst hc
      exact ⟨[], by simp [afterLine], by simp [afterLine]⟩
    · obtain ⟨comment, hcs, hrest⟩ := ih
      have hafter : afterLine (c :: cs) = afterLine cs := by simp [afterLine, hc]
      refine ⟨c :: comment, ?_, ?_⟩
      · rw [hafter, List.cons_append, ← hcs]
      · rw [blankFrom, if_neg hc, hrest, hafter, List.map_cons, blankOut, if_neg hc]
        rfl

lemma blankFrom_block (nested : Nat) (cs : List Char) :
    ∃ comment, cs = comment ++ afterBlock nested cs ∧
      blankFrom (.block nested) cs =
        comment.map blankOut ++ blankFrom (.code (some ')')) (afterBlock nested cs) := by
  fun_induction afterBlock nested cs with
  | case1 nested => exact ⟨[], rfl, by simp⟩
  | case2 nested cs ih =>
    obtain ⟨comment, hcs, hrest⟩ := ih
    exact ⟨'(' :: '*' :: comment, by simp [← hcs], by rw [blankFrom, hrest]; rfl⟩
  | case3 cs => exact ⟨['*', ')'], rfl, by rw [blankFrom]; rfl⟩
  | case4 nested cs ih =>
    obtain ⟨comment, hcs, hrest⟩ := ih
    exact ⟨'*' :: ')' :: comment, by simp [← hcs], by rw [blankFrom, hrest]; rfl⟩
  | case5 nested c cs hopen hclose hlast ih =>
    obtain ⟨comment, hcs, hrest⟩ := ih
    refine ⟨c :: comment, by rw [List.cons_append, ← hcs], ?_⟩
    rw [blankFrom, hrest]
    · rfl
    all_goals assumption

/-- A comment is blanked out, and after it a quote opens a literal. -/
lemma blankFrom_comment (before : Option Char) (h : afterComment? cs = some rest) :
    ∃ comment before', cs = comment ++ rest ∧ continuesName before' = false ∧
      blankFrom (.code before) cs = comment.map blankOut ++ blankFrom (.code before') rest := by
  unfold afterComment? at h
  split at h
  next cs =>
    cases h
    obtain ⟨comment, hcs, hrest⟩ := blankFrom_line cs
    refine ⟨'-' :: '-' :: comment, none, by simp [← hcs], rfl, ?_⟩
    rw [blankFrom, hrest]
    rfl
  next cs =>
    cases h
    obtain ⟨comment, hcs, hrest⟩ := blankFrom_block 0 cs
    refine ⟨'(' :: '*' :: comment, some ')', by simp [← hcs], ?_, ?_⟩
    · rw [continuesName_ascii (by decide)]
      decide
    · rw [blankFrom, hrest]
      rfl
  next => cases h

/-- The front of a text shows as blanks: its characters are blanks or blanked out. -/
def Hides (front gap : List Char) : Prop :=
  List.Forall₂ (fun c d => isBlank d = true ∧ (d = c ∨ d = blankOut c)) front gap

lemma Hides.isBlank {front gap : List Char} (h : Hides front gap) :
    ∀ d ∈ gap, isBlank d = true := by
  induction h with
  | nil => exact nofun
  | cons hd _ ih => exact List.forall_mem_cons.mpr ⟨hd.1, ih⟩

lemma hides_comment (comment : List Char) : Hides comment (comment.map blankOut) := by
  unfold Hides
  rw [List.forall₂_map_right_iff, List.forall₂_same]
  exact fun c _ => ⟨isBlank_blankOut c, .inr rfl⟩

/-- Blanking turns the front of a text into blanks, after which a quote opens a literal. -/
def Skips (before : Option Char) (cs rest : List Char) : Prop :=
  ∃ front gap before', cs = front ++ rest ∧ Hides front gap ∧ continuesName before' = false ∧
    blankFrom (.code before) cs = gap ++ blankFrom (.code before') rest

lemma skips_comment (before : Option Char) (h : afterComment? cs = some rest) :
    Skips before cs rest := by
  obtain ⟨comment, before', hcs, hbefore', hblanked⟩ := blankFrom_comment before h
  exact ⟨comment, comment.map blankOut, before', hcs, hides_comment comment, hbefore', hblanked⟩

lemma isBlank_ne (h : isBlank c = true) : c ≠ '"' ∧ c ≠ '\'' ∧ continuesName (some c) = false := by
  simp only [isBlank, Bool.or_eq_true, beq_iff_eq] at h
  rcases h with (((rfl | rfl) | rfl) | rfl) | rfl <;>
    exact ⟨by decide, by decide, by rw [continuesName_ascii (by decide)]; decide⟩

lemma skips_blank (before : Option Char) (hstart : startsComment (c :: cs) = false)
    (hc : isBlank c = true) : Skips before (c :: cs) cs := by
  obtain ⟨hquote, hprime, hafter⟩ := isBlank_ne hc
  refine ⟨[c], [c], some c, rfl, .cons ⟨hc, .inl rfl⟩ .nil, hafter, ?_⟩
  exact blankFrom_plain hstart hquote fun h => absurd h hprime

/-- The lexeme stands among tokens when blanking reaches it, is left as it is, and is followed by
what stands among tokens. -/
def Passes (before : Option Char) (lexeme rest : List Char) : Prop :=
  blankFrom (.code before) (lexeme ++ rest) =
    lexeme ++ blankFrom (.code (lexeme.getLast?.or before)) rest

section

variable {before : Option Char} {c : Char} {lexeme lexeme' rest : List Char}

lemma passes_nil : Passes before [] rest := rfl

lemma Passes.cons (hfirst : blankFrom (.code before) (c :: (lexeme ++ rest)) =
      c :: blankFrom (.code (some c)) (lexeme ++ rest)) (h : Passes (some c) lexeme rest) :
    Passes before (c :: lexeme) rest := by
  unfold Passes at h ⊢
  have hlast : (c :: lexeme).getLast?.or before = lexeme.getLast?.or (some c) := by
    rw [List.getLast?_cons]
    cases lexeme.getLast? <;> rfl
  rw [List.cons_append, hfirst, h, hlast, List.cons_append]

lemma Passes.append (h : Passes before lexeme (lexeme' ++ rest))
    (h' : Passes (lexeme.getLast?.or before) lexeme' rest) :
    Passes before (lexeme ++ lexeme') rest := by
  unfold Passes at h h' ⊢
  rw [List.append_assoc, h, h', List.append_assoc, List.getLast?_append, Option.or_assoc]

/-- Whether a character means nothing to blanking. -/
def isCalm (c : Char) : Bool := !(['"', '\'', '-', '('].contains c)

lemma isCalm_ne (h : isCalm c = true) : c ≠ '"' ∧ c ≠ '\'' ∧ c ≠ '-' ∧ c ≠ '(' := by
  simpa [isCalm] using h

lemma isCalm_of_class {p : Char → Bool} (hp : ['"', '\'', '-', '('].any p = false)
    (h : p c = true) : isCalm c = true := by
  have hc : c ∉ ['"', '\'', '-', '('] := fun hmem => List.any_eq_false.mp hp c hmem h
  simpa [isCalm] using hc

lemma Passes.cons_calm (hc : isCalm c = true) (h : Passes (some c) lexeme rest) :
    Passes before (c :: lexeme) rest := by
  obtain ⟨hquote, hprime, hdash, hparenthesis⟩ := isCalm_ne hc
  exact h.cons (blankFrom_plain (startsComment_of_ne hdash hparenthesis) hquote
    fun h => absurd h hprime)

/-- A quote that is taken for the end of a name. -/
lemma Passes.cons_prime (hbefore : continuesName before = true)
    (h : Passes (some '\'') lexeme rest) : Passes before ('\'' :: lexeme) rest :=
  h.cons (blankFrom_plain (startsComment_of_ne (by decide) (by decide)) (by decide)
    fun _ => hbefore)

lemma passes_calm (h : ∀ c ∈ lexeme, isCalm c = true) : Passes before lexeme rest := by
  induction lexeme generalizing before with
  | nil => exact passes_nil
  | cons c lexeme ih =>
    obtain ⟨hc, hrest⟩ := List.forall_mem_cons.mp h
    exact (ih hrest).cons_calm hc

lemma toNat_lt_of_isNameChar (h : isNameChar c = true) : c.toNat < 128 := by
  simp only [isNameChar, Char.isAlphanum, Bool.or_eq_true, isAlpha_iff, isUpper_iff, isLower_iff,
    Char.isDigit_iff_toNat, Char.reduceToNat, beq_iff_eq] at h
  rcases h with ((h | h) | rfl) | rfl
  · omega
  · omega
  · decide
  · decide

lemma continuesName_of_isNameChar (h : isNameChar c = true) : continuesName (some c) = true := by
  rw [continuesName_ascii (toNat_lt_of_isNameChar h)]
  exact h

lemma isCalm_of_continuesName (h : continuesName (some c) = true) (hprime : c ≠ '\'') :
    isCalm c = true := by
  have hne : c ≠ '"' ∧ c ≠ '-' ∧ c ≠ '(' := by
    refine ⟨?_, ?_, ?_⟩ <;>
      (rintro rfl; rw [continuesName_ascii (by decide)] at h; revert h; decide)
  simp [isCalm, hne, hprime]

lemma passes_name (hbefore : continuesName before = true)
    (h : ∀ c ∈ lexeme, isNameChar c = true) : Passes before lexeme rest := by
  induction lexeme generalizing before with
  | nil => exact passes_nil
  | cons c lexeme ih =>
    obtain ⟨hc, hrest⟩ := List.forall_mem_cons.mp h
    have hcontinues := continuesName_of_isNameChar hc
    by_cases hprime : c = '\''
    · subst hprime
      exact (ih hcontinues hrest).cons_prime hbefore
    · exact (ih hcontinues hrest).cons_calm (isCalm_of_continuesName hcontinues hprime)

lemma digits?_split {digits : List Char} (h : digits? cs = some digits) :
    cs = digits ++ cs.drop digits.length ∧ digits ≠ [] ∧ ∀ c ∈ digits, isCalm c = true := by
  obtain ⟨rfl, hne⟩ := digits?_eq_some h
  refine ⟨?_, hne, fun c hc => isCalm_of_class (by decide) (List.mem_takeWhile_imp hc)⟩
  exact (List.prefix_iff_eq_append.mp <| List.takeWhile_prefix _).symm

/-- The sign of an exponent is followed by a digit and starts no comment. -/
lemma passes_exponent (before : Option Char) (cs : List Char) :
    ∃ rest, cs = exponent cs ++ rest ∧ Passes before (exponent cs) rest := by
  rcases exponent_cases cs with hnone | ⟨mark, sign, ds, run, hmark, hsign, hcs, hrun, hexponent⟩
  · rw [hnone]
    exact ⟨cs, rfl, passes_nil⟩
  obtain ⟨hds, hne, hdigits⟩ := digits?_split hrun
  have hcalm : isCalm mark = true := by rcases hmark with rfl | rfl <;> rfl
  have hsigned : Passes (some mark) (sign ++ run) (ds.drop run.length) := by
    simp only [List.mem_cons, List.not_mem_nil, or_false] at hsign
    rcases hsign with rfl | rfl | rfl
    · exact passes_calm hdigits
    · exact (passes_calm hdigits).cons_calm rfl
    · obtain ⟨d, run, rfl⟩ := List.exists_cons_of_ne_nil hne
      obtain ⟨-, -, hd, -⟩ := isCalm_ne (hdigits d List.mem_cons_self)
      exact (passes_calm hdigits).cons
        (blankFrom_plain (startsComment_pair hd (by decide)) (by decide) nofun)
  rw [hexponent]
  refine ⟨ds.drop run.length, ?_, hsigned.cons_calm hcalm⟩
  rw [hcs, List.cons_append, List.append_assoc, ← hds]

lemma passes_float (h : float? cs = some lexeme) :
    ∃ rest, cs = lexeme ++ rest ∧ Passes before lexeme rest := by
  obtain ⟨whole, ds, fraction, hwhole, hpoint, hfraction, rfl⟩ := float?_eq_some h
  obtain ⟨hcs, -, hdigits⟩ := digits?_split hwhole
  obtain ⟨hds, -, hdigits'⟩ := digits?_split hfraction
  have hcalm : ∀ c ∈ whole ++ '.' :: fraction, isCalm c = true :=
    List.forall_mem_append.mpr ⟨hdigits, List.forall_mem_cons.mpr ⟨rfl, hdigits'⟩⟩
  obtain ⟨rest, hrest, hpasses⟩ := passes_exponent
    ((whole ++ '.' :: fraction).getLast?.or before) (ds.drop fraction.length)
  refine ⟨rest, ?_, (passes_calm hcalm).append hpasses⟩
  rw [hcs, hpoint, List.append_assoc, List.append_assoc, ← hrest, List.cons_append, ← hds]

lemma blankFrom_stringBody {body : List Char} (h : stringBody? cs = some body) :
    ∃ rest, cs = body ++ rest ∧ body.getLast? = some '"' ∧
      blankFrom (.literal '"') cs = body ++ blankFrom (.code (some '"')) rest := by
  fun_induction stringBody? cs generalizing body with
  | case1 cs =>
    cases h
    exact ⟨cs, rfl, rfl, blankFrom_literal_close (by decide)⟩
  | case2 cs => cases h
  | case3 c cs hc ih =>
    obtain ⟨body, hbody, rfl⟩ := Option.map_eq_some_iff.mp h
    obtain ⟨rest, rfl, hlast, hblanked⟩ := ih hbody
    refine ⟨rest, rfl, ?_, ?_⟩
    · simp [List.getLast?_cons, hlast]
    · rw [blankFrom, hblanked]
      rfl
  | case4 c cs _ _ hc => cases h
  | case5 c cs hquote _ hc ih =>
    simp only [Bool.or_eq_true, decide_eq_true_eq, not_or] at hc
    obtain ⟨body, hbody, rfl⟩ := Option.map_eq_some_iff.mp h
    obtain ⟨rest, rfl, hlast, hblanked⟩ := ih hbody
    refine ⟨rest, rfl, ?_, ?_⟩
    · simp [List.getLast?_cons, hlast]
    · rw [blankFrom_literal_keep hc.1 hquote hc.2, hblanked]
      rfl
  | case6 => cases h

lemma passes_string (before : Option Char) (h : string? cs = some lexeme) :
    ∃ rest, cs = lexeme ++ rest ∧ Passes before lexeme rest ∧ lexeme.getLast? = some '"' := by
  unfold string? at h
  split at h
  next cs =>
    obtain ⟨body, hbody, rfl⟩ := Option.map_eq_some_iff.mp h
    obtain ⟨rest, rfl, hlast, hblanked⟩ := blankFrom_stringBody hbody
    have hend : ('"' :: body).getLast? = some '"' := by simp [List.getLast?_cons, hlast]
    refine ⟨rest, rfl, ?_, hend⟩
    rw [Passes, hend, List.cons_append, blankFrom_string, hblanked]
    rfl
  next => cases h

lemma passes_spelling (hstart : startsComment cs = false) (hspelling : isSpelling lexeme = true)
    (hcs : cs = lexeme ++ rest) : Passes before lexeme rest := by
  obtain ⟨c, tail, rfl, hquote, hprime, htail, -⟩ := exists_of_isSpelling hspelling
  subst hcs
  have hcalm : ∀ d ∈ tail, isCalm d = true := by
    intro d hd
    have hnone := htail d hd
    simp only [List.mem_cons, not_or] at hnone
    simp [isCalm, hnone]
  exact .cons (blankFrom_plain hstart hquote fun h => absurd h hprime) (passes_calm hcalm)

lemma name?_split (h : name? first cs = some lexeme) :
    ∃ c cs', cs = c :: cs' ∧ first c = true ∧ lexeme = c :: cs'.takeWhile isNameChar := by
  unfold name? at h
  split at h
  next c cs =>
    split at h
    next hfirst =>
      cases h
      exact ⟨c, cs, rfl, hfirst, rfl⟩
    next => cases h
  next => cases h

lemma passes_name? (hfirst : ∀ c, first c = true → c.isAlpha = true)
    (h : name? first cs = some lexeme) :
    ∃ rest, cs = lexeme ++ rest ∧ Passes before lexeme rest := by
  obtain ⟨c, cs, rfl, hc, rfl⟩ := name?_split h
  have halpha := hfirst c hc
  have hname : isNameChar c = true := by simp [isNameChar, Char.isAlphanum, halpha]
  refine ⟨cs.dropWhile isNameChar, ?_, ?_⟩
  · rw [List.cons_append, List.takeWhile_append_dropWhile]
  · refine .cons_calm (isCalm_of_class (by decide) halpha) ?_
    exact passes_name (continuesName_of_isNameChar hname) fun d hd => List.mem_takeWhile_imp hd

lemma passes_char (hlexeme : CharLexeme lexeme) (hbefore : continuesName before = false) :
    Passes before lexeme rest := by
  cases hlexeme with
  | plain c hquote hescape hline =>
    simp only [Passes, List.cons_append, List.nil_append]
    rw [blankFrom_quote hbefore, blankFrom_literal_keep hescape hquote hline,
      blankFrom_literal_close (by decide)]
    rfl
  | escape c hline =>
    simp only [Passes, List.cons_append, List.nil_append]
    rw [blankFrom_quote hbefore, blankFrom, blankFrom_literal_close (by decide)]
    rfl
  | code a b ha hb =>
    have hdigit : ∀ {d : Char}, Text.isHexDigit d = true → d ≠ '\\' ∧ d ≠ '\'' ∧ d ≠ '\n' := by
      intro d hd
      refine ⟨?_, ?_, ?_⟩ <;> (rintro rfl; cases hd)
    obtain ⟨ha₁, ha₂, ha₃⟩ := hdigit ha
    obtain ⟨hb₁, hb₂, hb₃⟩ := hdigit hb
    simp only [Passes, List.cons_append, List.nil_append]
    rw [blankFrom_quote hbefore, blankFrom, blankFrom_literal_keep ha₁ ha₂ ha₃,
      blankFrom_literal_keep hb₁ hb₂ hb₃, blankFrom_literal_close (by decide)]
    rfl

/-- A character literal that is taken for the end of a name is left as it is, if a quote after
its last character is taken for the end of a name too. -/
lemma passes_glued (hlexeme : CharLexeme lexeme) (hbefore : continuesName before = true)
    (hlast : continuesName lexeme.dropLast.getLast? = true) : Passes before lexeme rest := by
  cases hlexeme with
  | plain c hquote =>
    have hlast' : continuesName (some c) = true := hlast
    refine .cons_prime hbefore (.cons_calm (isCalm_of_continuesName hlast' hquote) ?_)
    exact passes_nil.cons_prime hlast'
  | escape c hline =>
    have hlast' : continuesName (some c) = true := hlast
    refine .cons_prime hbefore (.cons_calm rfl ?_)
    by_cases hc : c = '\''
    · -- The escaped quote opens a literal, and the closing one ends it.
      subst hc
      have hescape : continuesName (some '\\') = false := by
        rw [continuesName_ascii (by decide)]
        decide
      simp only [Passes, List.cons_append, List.nil_append]
      rw [blankFrom_quote hescape, blankFrom_literal_close (by decide)]
      rfl
    · exact .cons_calm (isCalm_of_continuesName hlast' hc) (passes_nil.cons_prime hlast')
  | code a b ha hb =>
    have hlast' : continuesName (some b) = true := hlast
    refine .cons_prime hbefore (.cons_calm rfl (.cons_calm rfl ?_))
    refine .cons_calm (isCalm_of_class (by decide) ha) ?_
    exact .cons_calm (isCalm_of_class (by decide) hb) (passes_nil.cons_prime hlast')

/-- A lexeme is left as it is, unless it is a character literal that is misread. -/
lemma passes_lexeme (hstart : startsComment cs = false) (hmatch : ofKind? kind cs = some lexeme)
    (hchar : kind = .charLiteral → continuesName before = true →
      continuesName lexeme.dropLast.getLast? = true) :
    ∃ rest, cs = lexeme ++ rest ∧ Passes before lexeme rest := by
  cases htext : kind.text with
  | some text =>
    obtain ⟨rfl, rest, hcs⟩ := eq_of_ofKind?_text htext hmatch
    exact ⟨rest, hcs, passes_spelling hstart (isSpelling_text htext) hcs⟩
  | none =>
    rcases kind_of_text_eq_none htext with rfl | rfl | rfl | rfl | rfl | rfl
    · exact passes_name? (fun c hc => isAlpha_iff.mpr (.inr hc)) hmatch
    · exact passes_name? (fun c hc => isAlpha_iff.mpr (.inl hc)) hmatch
    · obtain ⟨hcs, -, hcalm⟩ := digits?_split hmatch
      exact ⟨_, hcs, passes_calm hcalm⟩
    · exact passes_float hmatch
    · obtain ⟨hlexeme, rest, hcs⟩ := char?_eq_some_iff.mp hmatch
      refine ⟨rest, hcs, ?_⟩
      cases hbefore : continuesName before with
      | false => exact passes_char hlexeme hbefore
      | true => exact passes_glued hlexeme hbefore (hchar rfl hbefore)
    · obtain ⟨rest, hcs, hpasses, -⟩ := passes_string before hmatch
      exact ⟨rest, hcs, hpasses⟩

end

lemma ne_nil_of_ofKind? (h : ofKind? kind cs = some lexeme) : lexeme ≠ [] := by
  cases htext : kind.text with
  | some text =>
    obtain ⟨rfl, -⟩ := eq_of_ofKind?_text htext h
    obtain ⟨c, rest, hspelling, -⟩ := exists_of_isSpelling (isSpelling_text htext)
    rw [hspelling]
    exact List.cons_ne_nil c rest
  | none =>
    rcases kind_of_text_eq_none htext with rfl | rfl | rfl | rfl | rfl | rfl
    · obtain ⟨c, cs, -, -, rfl⟩ := name?_split h
      exact List.cons_ne_nil _ _
    · obtain ⟨c, cs, -, -, rfl⟩ := name?_split h
      exact List.cons_ne_nil _ _
    · exact (digits?_split h).2.1
    · obtain ⟨whole, ds, fraction, -, -, -, rfl⟩ := float?_eq_some h
      simp
    · cases (char?_eq_some_iff.mp h).1 <;> exact List.cons_ne_nil _ _
    · rintro rfl
      obtain ⟨-, -, -, hlast⟩ := passes_string none h
      cases hlast

/-- A name in front of a quote would go on with it. -/
lemma not_longest?_name (kind' : TokenKind) (hkind : ∀ cs, ofKind? kind' cs = name? first cs)
    {tail : List Char} (hlexeme : lexeme = c :: tail) (hfirst : first c = true)
    (htail : ∀ d ∈ tail, isNameChar d = true) (hcs : cs = lexeme ++ '\'' :: rest) :
    longest? cs ≠ some (kind, lexeme) := by
  intro h
  have hname : ofKind? kind' cs =
      some (c :: (tail ++ '\'' :: rest.takeWhile isNameChar)) := by
    have hrun : (tail ++ '\'' :: rest).takeWhile isNameChar =
        tail ++ '\'' :: rest.takeWhile isNameChar := by
      rw [List.takeWhile_append_of_pos htail, List.takeWhile_cons_of_pos (by decide)]
    rw [hkind, hcs, hlexeme, List.cons_append, name?, if_pos hfirst, hrun]
  have hle := length_le_of_longest? h hname
  rw [hlexeme] at hle
  simp only [List.length_cons, List.length_append] at hle
  omega

/-- A token that ends like a name and is followed by a quote is a literal. -/
lemma literal_of_quote (h : longest? cs = some (kind, lexeme)) (hcs : cs = lexeme ++ '\'' :: rest)
    (hlast : continuesName lexeme.getLast? = true) :
    [.intLiteral, .floatLiteral, .charLiteral].contains kind = true := by
  have hmatch := ofKind?_of_longest? h
  cases htext : kind.text with
  | some text =>
    obtain ⟨rfl, -⟩ := eq_of_ofKind?_text htext hmatch
    obtain ⟨c, tail, hspelling, -, -, -, hend⟩ := exists_of_isSpelling (isSpelling_text htext)
    rcases hend with ⟨hlower, htail⟩ | hend
    · exact absurd h (not_longest?_name .genid (fun _ => rfl) hspelling hlower htail hcs)
    · rw [hend] at hlast
      cases hlast
  | none =>
    rcases kind_of_text_eq_none htext with rfl | rfl | rfl | rfl | rfl | rfl
    · obtain ⟨c, cs', -, hfirst, hlexeme⟩ := name?_split hmatch
      exact absurd h (not_longest?_name .genid (fun _ => rfl) hlexeme hfirst
        (fun d hd => List.mem_takeWhile_imp hd) hcs)
    · obtain ⟨c, cs', -, hfirst, hlexeme⟩ := name?_split hmatch
      exact absurd h (not_longest?_name .conid (fun _ => rfl) hlexeme hfirst
        (fun d hd => List.mem_takeWhile_imp hd) hcs)
    · rfl
    · rfl
    · rfl
    · obtain ⟨-, -, -, hend⟩ := passes_string none hmatch
      rw [hend, continuesName_ascii (by decide)] at hlast
      revert hlast
      decide

/-- The words of an input without comments. -/
def scanned (place : Place) (input : List Char) : Option (List Word) :=
  (scan place input).toOption.map (List.map word)

lemma scanned_gap {gap : List Char} (h : ∀ c ∈ gap, isBlank c = true) (rest : List Char)
    (place : Place) : ∃ place', scanned place (gap ++ rest) = scanned place' rest := by
  induction gap generalizing place with
  | nil => exact ⟨place, rfl⟩
  | cons c gap ih =>
    obtain ⟨hc, hrest⟩ := List.forall_mem_cons.mp h
    obtain ⟨place', hplace'⟩ := ih hrest (skipBlank place c)
    refine ⟨place', ?_⟩
    rw [← hplace', List.cons_append, scanned, scan, if_pos hc]
    rfl

lemma scanned_junk (place : Place) (hc : isBlank c = false) (h : longest? (c :: cs) = none) :
    scanned place (c :: cs) = none := by
  rw [scanned, scan, if_neg (by simp [hc]), h]
  rfl

/-- The value of a token is its lexeme, also where it is looked up as the spelling of its kind. -/
lemma value_of_longest? (h : longest? cs = some (kind, lexeme)) :
    kind.text.getD (String.ofList lexeme) = String.ofList lexeme := by
  cases htext : kind.text with
  | none => rfl
  | some text =>
    rw [(eq_of_ofKind?_text htext (ofKind?_of_longest? h)).1, String.ofList_toList]
    rfl

lemma scanned_token {tail : List Char} (place : Place) (hc : isBlank c = false)
    (h : longest? (c :: (tail ++ cs)) = some (kind, c :: tail)) :
    ∃ place', scanned place (c :: (tail ++ cs)) = (scanned place' cs).map fun words =>
      (kind, String.ofList (c :: tail)) :: words := by
  have hvalue := value_of_longest? h
  refine ⟨(ofLexeme place kind (c :: tail)).span.stop, ?_⟩
  have hdrop : (tail ++ cs).drop ((c :: tail).length - 1) = cs := by simp
  unfold scanned
  rw [scan, if_neg (by simp [hc]), h]
  simp only [hdrop]
  cases scan (ofLexeme place kind (c :: tail)).span.stop cs with
  | error rest => rfl
  | ok tokens =>
    simp only [Except.toOption, Option.map_some, List.map_cons, word, ofLexeme, ofSpan, hvalue]

lemma startsComment_eq_false (hline : ∀ ds, c = '-' → cs = '-' :: ds → False)
    (hblock : ∀ ds, c = '(' → cs = '*' :: ds → False) : startsComment (c :: cs) = false := by
  unfold startsComment
  split
  next ds heq => exact (hline ds (List.cons.inj heq).1 (List.cons.inj heq).2).elim
  next ds heq => exact (hblock ds (List.cons.inj heq).1 (List.cons.inj heq).2).elim
  next => rfl

/-- The parts of a text show in another one: lexemes as they are, gaps as blanks, and no lexeme
starts in the second text where there is junk in the first. -/
inductive Parted : List Char → List Char → List Piece → Prop
  | nil : Parted [] [] []
  | gap {front gap cs ds : List Char} {ps : List Piece} :
      Hides front gap → Parted cs ds ps → Parted (front ++ cs) (gap ++ ds) (.gap :: ps)
  | token {kind : TokenKind} {c : Char} {tail cs ds : List Char} {ps : List Piece} :
      isBlank c = false → longest? (c :: (tail ++ ds)) = some (kind, c :: tail) →
      Parted cs ds ps →
      Parted (c :: (tail ++ cs)) (c :: (tail ++ ds)) (.token kind (c :: tail) :: ps)
  | junk {d : Char} {cs ds : List Char} :
      isBlank d = false → longest? (d :: ds) = none → Parted cs (d :: ds) [.junk]

/-- Cutting a text gives the words of the parts that show in it. -/
lemma Parted.scanned {ds : List Char} {ps : List Piece} (h : Parted cs ds ps) (place : Place) :
    scanned place ds = wordsOf ps := by
  induction h generalizing place with
  | nil => simp [Proofs.scanned, scan, wordsOf, Except.toOption]
  | @gap front gap cs ds ps hhides _ ih =>
    obtain ⟨place', hplace'⟩ := scanned_gap hhides.isBlank ds place
    exact hplace'.trans (ih place')
  | token hc hlongest _ ih =>
    obtain ⟨place', hplace'⟩ := scanned_token place hc hlongest
    rw [hplace', ih place', wordsOf]
  | junk hd hnone => exact scanned_junk place hd hnone

lemma Skips.parted {ps : List Piece} (h : Skips before cs rest)
    (hrest : ∀ before', continuesName before' = false →
      Parted rest (blankFrom (.code before') rest) ps) :
    Parted cs (blankFrom (.code before) cs) (.gap :: ps) := by
  obtain ⟨front, gap, before', rfl, hhides, hbefore', hblanked⟩ := h
  rw [hblanked]
  exact .gap hhides (hrest before' hbefore')

/-- The first lexeme of a text shows when comments are blanked out, and what follows it stands
among tokens. -/
lemma parted_lexeme {ps : List Piece} (hstart : startsComment (c :: cs) = false)
    (hc : isBlank c = false) (hlongest : longest? (c :: cs) = some (kind, lexeme))
    (hchar : kind = .charLiteral → continuesName before = true →
      continuesName lexeme.dropLast.getLast? = true)
    (hrest : ∀ rest, c :: cs = lexeme ++ rest → cs.drop (lexeme.length - 1) = rest →
      Parted rest (blankFrom (.code lexeme.getLast?) rest) ps) :
    Parted (c :: cs) (blankFrom (.code before) (c :: cs)) (.token kind lexeme :: ps) := by
  have hmatch := ofKind?_of_longest? hlongest
  obtain ⟨rest, hcs, hpasses⟩ := passes_lexeme hstart hmatch hchar
  obtain ⟨first, tail, rfl⟩ := List.exists_cons_of_ne_nil (ne_nil_of_ofKind? hmatch)
  rw [List.cons_append] at hcs
  obtain ⟨rfl, rfl⟩ := List.cons.inj hcs
  have hafter : (c :: tail).getLast?.or before = (c :: tail).getLast? := by
    simp [List.getLast?_cons]
  rw [Passes, hafter] at hpasses
  have hsame := longest?_blankFrom before hstart
  rw [hlongest, ← List.cons_append, hpasses] at hsame
  have htail := hrest rest rfl (by simp)
  rw [← List.cons_append, hpasses]
  exact .token hc hsame htail

/-- The parts of a text that goes on after the part `previous` show when its comments are blanked
out. If a quote comes next and is taken for the end of a name, that part is a literal. -/
lemma parted_blankFrom (cs : List Char) {previous : Piece}
    (hprevious : continuesName before = true → cs.head? = some '\'' →
      ∃ kind lexeme, previous = .token kind lexeme ∧
      [.intLiteral, .floatLiteral, .charLiteral].contains kind = true)
    (hchain : (previous :: pieces cs).IsChain fun p q => misread p q = false) :
    Parted cs (blankFrom (.code before) cs) (pieces cs) := by
  fun_induction pieces cs generalizing before previous with
  | case1 => exact .nil
  | case2 cs ih =>
    refine Skips.parted (skips_comment before rfl) fun before' hbefore' => ?_
    refine ih (fun h => ?_) (List.isChain_cons_cons.mp hchain).2
    cases hbefore'.symm.trans h
  | case3 cs ih =>
    refine Skips.parted (skips_comment before rfl) fun before' hbefore' => ?_
    refine ih (fun h => ?_) (List.isChain_cons_cons.mp hchain).2
    cases hbefore'.symm.trans h
  | case4 c cs hline hblock hc ih =>
    have hskips := skips_blank before (startsComment_eq_false hline hblock) hc
    refine hskips.parted fun before' hbefore' => ?_
    refine ih (fun h => ?_) (List.isChain_cons_cons.mp hchain).2
    cases hbefore'.symm.trans h
  | case5 c cs hline hblock hc hjunk =>
    have hstart := startsComment_eq_false hline hblock
    have hnone := longest?_blankFrom before hstart
    obtain ⟨region, -, hblanked⟩ := exists_blankFrom_cons before hstart
    rw [hblanked] at hnone ⊢
    exact .junk (by simpa using hc) (hnone.trans hjunk)
  | case6 c cs hline hblock hc kind lexeme hlongest ih =>
    have hstart := startsComment_eq_false hline hblock
    obtain ⟨hpair, hrest⟩ := List.isChain_cons_cons.mp hchain
    have hmatch := ofKind?_of_longest? hlongest
    have hchar : kind = .charLiteral → continuesName before = true →
        continuesName lexeme.dropLast.getLast? = true := by
      rintro rfl hbefore
      obtain ⟨hlexeme, rest, hcs⟩ := char?_eq_some_iff.mp hmatch
      have hquote : (c :: cs).head? = some '\'' := by
        rw [hcs]
        cases hlexeme <;> rfl
      obtain ⟨kind, literal, rfl, hkind⟩ := hprevious hbefore hquote
      rw [misread, hkind, Bool.true_and, Bool.not_eq_false'] at hpair
      exact hpair
    refine parted_lexeme hstart (by simpa using hc) hlongest hchar fun rest hcs hdrop => ?_
    rw [hdrop] at ih hrest ⊢
    refine ih (fun hlast hquote => ?_) hrest
    obtain ⟨rest', rfl⟩ : ∃ rest', rest = '\'' :: rest' := by
      cases rest with
      | nil => cases hquote
      | cons d rest => exact ⟨rest, by rw [Option.some.inj hquote]⟩
    exact ⟨kind, lexeme, rfl, literal_of_quote hlongest hcs hlast⟩

/-- Blanking and cutting a text that goes on after the part `previous` gives the words of its
parts. -/
lemma scanned_blankFrom (cs : List Char) {previous : Piece}
    (hprevious : continuesName before = true → cs.head? = some '\'' →
      ∃ kind lexeme, previous = .token kind lexeme ∧
      [.intLiteral, .floatLiteral, .charLiteral].contains kind = true)
    (hchain : (previous :: pieces cs).IsChain fun p q => misread p q = false) (place : Place) :
    scanned place (blankFrom (.code before) cs) = wordsOf (pieces cs) :=
  (parted_blankFrom cs hprevious hchain).scanned place

/-- Where no character literal is misread, the words of a text are those that one pass finds, and
none are found where one pass fails. -/
theorem lex_eq_onePass (source : String)
    (h : (pieces source.toList).IsChain fun p q => misread p q = false) :
    (lex source).toOption.map (List.map word) = onePass source := by
  have hchain : (Piece.gap :: pieces source.toList).IsChain fun p q => misread p q = false := by
    cases hpieces : pieces source.toList with
    | nil => exact .singleton _
    | cons p ps => exact .cons_cons rfl (hpieces ▸ h)
  have hscan : scanned ⟨0, 0⟩ (blankFrom (.code none) source.toList) = onePass source :=
    scanned_blankFrom source.toList (fun h => by cases h) hchain ⟨0, 0⟩
  rw [← hscan, scanned, lex, blank, String.toList_ofList]
  cases scan ⟨0, 0⟩ (blankFrom (.code none) source.toList) <;> rfl

/-- Quotes and comment markers in literals, a name that ends in a quote, a nested comment with
quotes in it, and character literals that follow others without harm. -/
def quotedSource : String := "x' '\"' \"--\" (* ' (* \" *) *) 1'a'2.5'\\''-- '"

theorem lex_eq_onePass_quotedSource :
    ((pieces quotedSource.toList).IsChain fun p q => misread p q = false) ∧
      (lex quotedSource).toOption.map (List.map word) = onePass quotedSource := by
  have hchain : (pieces quotedSource.toList).IsChain fun p q => misread p q = false := by
    decide +kernel
  exact ⟨hchain, lex_eq_onePass quotedSource hchain⟩

/-- In `1'"'"--"` the quotes of the character are taken for the end of a name and for a string, so
that the string after it is taken for a comment. -/
theorem lex_misread_quote :
    lex "1'\"'\"--\"" = .error ⟨"1'\"'\"   ", 4, "\"   "⟩ ∧
      onePass "1'\"'\"--\"" =
        some [(.intLiteral, "1"), (.charLiteral, "'\"'"), (.stringLiteral, "\"--\"")] := by
  decide +kernel

end Llama.Proofs
