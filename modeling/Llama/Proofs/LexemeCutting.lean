import Llama.Proofs.TokenTiling

/-!
# Cutting a text that was put together

A text that is a lexeme as a whole is cut as one token wherever what follows does not extend it.
`Cuts text words follow` says that a text is left as it is by blanking and cut into the given
words, before anything whose first character satisfies `follow`. Texts that are cut and fit
together are cut one after the other.
-/

namespace Llama.Proofs

open Lexeme Comment Token

variable {kind : TokenKind} {text tail rest : List Char} {c : Char} {source : String}

/-- The text is a lexeme of the kind as a whole. -/
def IsLexeme (kind : TokenKind) (text : List Char) : Prop := longest? text = some (kind, text)

/-- The characters that make a spelling of a text if they follow it. -/
def extensions (text : List Char) : List Char :=
  TokenKind.all.filterMap fun kind => kind.text.bind fun spelling =>
    if text.isPrefixOf spelling.toList then (spelling.toList.drop text.length).head? else none

lemma mem_extensions {spelling : String} (h : kind.text = some spelling)
    (hspelling : spelling.toList = text ++ c :: tail) : c ∈ extensions text := by
  refine List.mem_filterMap.mpr ⟨kind, TokenKind.mem_all kind, ?_⟩
  rw [h, Option.bind_some, hspelling, if_pos, List.drop_left, List.head?_cons]
  exact List.isPrefixOf_iff_prefix.mpr (List.prefix_append _ _)

/-- No spelling of a kind is found only with what follows a text. -/
lemma isPrefixOf_append {spelling : String} (h : kind.text = some spelling)
    (hrest : ∀ c ∈ rest.head?, c ∉ extensions text) :
    spelling.toList.isPrefixOf (text ++ rest) = spelling.toList.isPrefixOf text := by
  rw [Bool.eq_iff_iff, List.isPrefixOf_iff_prefix, List.isPrefixOf_iff_prefix]
  refine ⟨fun ⟨later, hlater⟩ => ?_, fun hshort => hshort.trans (List.prefix_append _ _)⟩
  rcases List.append_eq_append_iff.mp hlater with ⟨more, hmore, -⟩ | ⟨more, hmore, hrest'⟩
  · exact ⟨more, hmore.symm⟩
  · cases more with
    | nil => exact ⟨[], by rw [hmore, List.append_nil, List.append_nil]⟩
    | cons c more =>
      refine absurd (mem_extensions h hmore) (hrest c ?_)
      rw [hrest']
      rfl

/-- Whether a character can start a literal. -/
def startsLiteral (c : Char) : Bool := c.isDigit || c == '\'' || c == '"'

/-- Only names and spellings are found where no literal starts. -/
lemma ofKind?_literal (cs : List Char) (hkind : kind.text = none) (hgenid : kind ≠ .genid)
    (hconid : kind ≠ .conid) (hc : startsLiteral c = false) : ofKind? kind (c :: cs) = none := by
  simp only [startsLiteral, Bool.or_eq_false_iff, beq_eq_false_iff_ne] at hc
  obtain ⟨⟨hdigit, hprime⟩, hquote⟩ := hc
  have hdigits : digits? (c :: cs) = none := by
    rw [digits?, List.takeWhile_cons_of_neg (by simp [hdigit])]
    rfl
  rcases kind_of_text_eq_none hkind with rfl | rfl | rfl | rfl | rfl | rfl
  · exact absurd rfl hgenid
  · exact absurd rfl hconid
  · exact hdigits
  · simp [ofKind?, float?, hdigits]
  · cases hchar : ofKind? .charLiteral (c :: cs) with
    | none => rfl
    | some lexeme =>
      obtain ⟨hlexeme, rest, hcs⟩ := char?_eq_some_iff.mp hchar
      cases hlexeme <;> exact absurd (List.cons.inj hcs).1 hprime
  · simp [ofKind?, string?, hquote]

/-- A text is found alike before anything that neither makes a spelling of it nor goes on with a
name. -/
lemma longest?_append (hc : startsLiteral c = false)
    (hrest : ∀ d ∈ rest.head?, d ∉ extensions (c :: tail))
    (hname : c.isAlpha = true → (tail ++ rest).takeWhile isNameChar = tail.takeWhile isNameChar) :
    longest? (c :: tail ++ rest) = longest? (c :: tail) := by
  refine longest?_congr fun kind => ?_
  have hclass (first : Char → Bool) (hfirst : first c = true → c.isAlpha = true) :
      name? first (c :: (tail ++ rest)) = name? first (c :: tail) := by
    by_cases hstarts : first c = true
    · simp only [name?, if_pos hstarts, hname (hfirst hstarts)]
    · simp only [name?, if_neg hstarts]
  cases htext : kind.text with
  | some spelling =>
    rw [ofKind?_of_text htext, ofKind?_of_text htext, isPrefixOf_append htext hrest]
  | none =>
    by_cases hgenid : kind = .genid
    · subst hgenid
      exact hclass Char.isLower fun h => isAlpha_iff.mpr (.inr h)
    by_cases hconid : kind = .conid
    · subst hconid
      exact hclass Char.isUpper fun h => isAlpha_iff.mpr (.inl h)
    rw [List.cons_append, ofKind?_literal _ htext hgenid hconid hc,
      ofKind?_literal _ htext hgenid hconid hc]

/-- What follows a name does not go on with it. -/
def endsName (k : Option Char) : Prop := ∀ c ∈ k, isNameChar c = false

/-- The spellings that start like a name are made of the characters of a name. -/
lemma isNameChar_of_mem_extensions {d : Char} (hc : c.isAlpha = true)
    (hd : d ∈ extensions (c :: tail)) : isNameChar d = true := by
  have hall : (TokenKind.all.all fun kind => kind.text.all fun spelling =>
      !(spelling.toList.head?.any Char.isAlpha) || spelling.toList.all isNameChar) = true := by
    decide +kernel
  obtain ⟨kind, hkind, hfound⟩ := List.mem_filterMap.mp hd
  obtain ⟨spelling, htext, hspelling⟩ := Option.bind_eq_some_iff.mp hfound
  split at hspelling
  next hfront =>
    have hkind := List.all_eq_true.mp hall kind hkind
    obtain ⟨later, hlater⟩ := List.isPrefixOf_iff_prefix.mp hfront
    rw [htext, Option.all_some, ← hlater] at hkind
    rw [← hlater, List.drop_left] at hspelling
    have hletters : (c :: tail ++ later).all isNameChar = true := by
      simpa [hc] using hkind
    exact List.all_eq_true.mp hletters d
      (List.mem_append_right _ (List.mem_of_mem_head? hspelling))
  next => cases hspelling

lemma startsLiteral_of_isAlpha (h : c.isAlpha = true) : startsLiteral c = false := by
  have hletters : (c ≠ '\'' ∧ c ≠ '"') ∧ c.isDigit = false := by
    refine ⟨⟨?_, ?_⟩, ?_⟩
    · rintro rfl
      revert h
      decide
    · rintro rfl
      revert h
      decide
    · rw [isAlpha_iff, isUpper_iff, isLower_iff] at h
      rw [Bool.eq_false_iff, Ne, Char.isDigit_iff_toNat]
      change ¬ (48 ≤ c.toNat ∧ c.toNat ≤ 57)
      omega
  simp [startsLiteral, hletters]

/-- A name is found alike before anything that does not go on with it. -/
lemma longest?_name (hc : c.isAlpha = true) (htail : ∀ d ∈ tail, isNameChar d = true)
    (hrest : endsName rest.head?) : longest? (c :: tail ++ rest) = longest? (c :: tail) := by
  refine longest?_append (startsLiteral_of_isAlpha hc) (fun d hd hextends => ?_) fun _ => ?_
  · have hgoes := isNameChar_of_mem_extensions hc hextends
    rw [hrest d hd] at hgoes
    cases hgoes
  · have hstop : rest.takeWhile isNameChar = [] := by
      cases rest with
      | nil => rfl
      | cons d rest =>
        have hd := hrest d rfl
        rw [List.takeWhile_cons_of_neg (by simp [hd])]
    rw [List.takeWhile_append_of_pos htail, hstop, List.append_nil,
      List.takeWhile_eq_self_iff.mpr htail]

/-- The characters of a name. -/
lemma IsLexeme.name (h : IsLexeme kind text) (hkind : kind = .genid ∨ kind = .conid) :
    ∃ c tail, text = c :: tail ∧ (if kind = .genid then c.isLower else c.isUpper) = true ∧
      ∀ d ∈ tail, isNameChar d = true := by
  have hmatch := ofKind?_of_longest? h
  rcases hkind with rfl | rfl <;>
  · obtain ⟨c, cs, rfl, hfirst, hlexeme⟩ := name?_split hmatch
    refine ⟨c, cs, rfl, hfirst, ?_⟩
    rw [(List.cons.inj hlexeme).2]
    exact fun d hd => List.mem_takeWhile_imp hd

/-- Every token of a text that is a name is one as a whole. -/
lemma isLexeme_of_lex {tokens : List Token} (h : lex source = .ok tokens) {token : Token}
    (hmem : token ∈ tokens) (hkind : token.kind = .genid ∨ token.kind = .conid) :
    IsLexeme token.kind token.value.toList := by
  obtain ⟨_, lexeme, hstands⟩ := (shows_scan (scan_of_lex h)).exists_standsAt token hmem
  obtain ⟨cs, hlongest⟩ := hstands.longest
  have hmatch := ofKind?_of_longest? hlongest
  obtain ⟨c, rest, rfl, hfirst, hlexeme⟩ : ∃ c rest, cs = c :: rest ∧ c.isAlpha = true ∧
      lexeme = c :: rest.takeWhile isNameChar := by
    rcases hkind with hkind | hkind
    · rw [hkind] at hmatch
      obtain ⟨c, rest, hcs, hfirst, hlexeme⟩ := name?_split hmatch
      exact ⟨c, rest, hcs, isAlpha_iff.mpr (.inr hfirst), hlexeme⟩
    · rw [hkind] at hmatch
      obtain ⟨c, rest, hcs, hfirst, hlexeme⟩ := name?_split hmatch
      exact ⟨c, rest, hcs, isAlpha_iff.mpr (.inl hfirst), hlexeme⟩
  -- The rest starts with no character of a name, so that cutting it off changes nothing.
  have hcut : longest? (lexeme ++ rest.dropWhile isNameChar) = longest? lexeme := by
    rw [hlexeme]
    refine longest?_name hfirst (fun d hd => List.mem_takeWhile_imp hd) fun d hd => ?_
    have hnot := List.head?_dropWhile_not isNameChar rest
    rw [hd] at hnot
    exact hnot
  rw [hstands.value, String.toList_ofList, IsLexeme, ← hcut, hlexeme, List.cons_append,
    List.takeWhile_append_dropWhile, ← hlexeme]
  exact hlongest

/-- The text stands among tokens as it is and is cut into the given words, before anything whose
first character satisfies `follow`. -/
def Cuts (text : List Char) (words : List Word) (follow : Option Char → Prop) : Prop :=
  ∀ before rest, follow rest.head? →
    Passes before text rest ∧
      ∀ place, ∃ place', scanned place (text ++ rest) =
        (scanned place' rest).map fun later => words ++ later

section

variable {text text' : List Char} {words words' : List Word}
  {follow follow' : Option Char → Prop}

lemma Cuts.append (h : Cuts text words follow) (h' : Cuts text' words' follow')
    (hfollow : ∀ k, follow' k → follow (text'.head?.or k)) :
    Cuts (text ++ text') (words ++ words') follow' := by
  intro before rest hrest
  have hnext : follow (text' ++ rest).head? := by
    rw [List.head?_append]
    exact hfollow _ hrest
  obtain ⟨hpasses, hscanned⟩ := h before (text' ++ rest) hnext
  obtain ⟨hpasses', hscanned'⟩ := h' (text.getLast?.or before) rest hrest
  refine ⟨hpasses.append hpasses', fun place => ?_⟩
  obtain ⟨place₁, hfirst⟩ := hscanned place
  obtain ⟨place₂, hsecond⟩ := hscanned' place₁
  refine ⟨place₂, ?_⟩
  rw [List.append_assoc, hfirst, hsecond, Option.map_map]
  congr 1
  funext later
  exact (List.append_assoc _ _ _).symm

lemma Cuts.mono (h : Cuts text words follow) (hfollow : ∀ k, follow' k → follow k) :
    Cuts text words follow' :=
  fun before rest hrest => h before rest (hfollow _ hrest)

lemma cuts_blank : Cuts [' '] [] fun _ => True := by
  refine fun before rest _ => ⟨passes_calm fun c hc => ?_, fun place => ?_⟩
  · rw [List.mem_singleton.mp hc]
    rfl
  obtain ⟨place', hplace'⟩ : ∃ place', scanned place ([' '] ++ rest) = scanned place' rest :=
    scanned_gap (fun c hc => by rw [List.mem_singleton.mp hc]; rfl) rest place
  refine ⟨place', ?_⟩
  rw [hplace']
  cases scanned place' rest <;> rfl

/-- A text is cut as one token where it is found as a lexeme and opens no comment. -/
lemma cuts_lexeme (hblank : isBlank c = false) (hchar : kind ≠ .charLiteral)
    (h : IsLexeme kind (c :: tail))
    (hfound : ∀ rest, follow rest.head? →
      longest? (c :: tail ++ rest) = longest? (c :: tail) ∧
      startsComment (c :: tail ++ rest) = false) :
    Cuts (c :: tail) [(kind, String.ofList (c :: tail))] follow := by
  intro before rest hrest
  obtain ⟨hlongest, hstart⟩ := hfound rest hrest
  rw [h] at hlongest
  obtain ⟨rest', hsplit, hpasses⟩ : ∃ rest', c :: tail ++ rest = c :: tail ++ rest' ∧
      Passes before (c :: tail) rest' :=
    passes_lexeme hstart (ofKind?_of_longest? hlongest) fun hkind => absurd hkind hchar
  obtain rfl := List.append_cancel_left hsplit
  exact ⟨hpasses, fun place => scanned_token place hblank hlongest⟩

/-- A symbol that opens no comment is cut before anything that does not extend it. -/
lemma cuts_symbol (hblank : isBlank c = false) (hname : c.isAlpha = false)
    (hc : startsLiteral c = false) (hchar : kind ≠ .charLiteral) (h : IsLexeme kind (c :: tail))
    (hcomment : ∀ rest, follow rest.head? → startsComment (c :: tail ++ rest) = false)
    (hextends : ∀ k, follow k → ∀ d ∈ k, d ∉ extensions (c :: tail)) :
    Cuts (c :: tail) [(kind, String.ofList (c :: tail))] follow := by
  refine cuts_lexeme hblank hchar h fun rest hrest => ⟨?_, hcomment rest hrest⟩
  exact longest?_append hc (hextends _ hrest) fun halpha => by simp [hname] at halpha

/-- A word of small letters is cut before anything that does not go on with it. -/
lemma cuts_name (hc : c.isLower = true) (htail : ∀ d ∈ tail, isNameChar d = true)
    (hchar : kind ≠ .charLiteral) (h : IsLexeme kind (c :: tail)) :
    Cuts (c :: tail) [(kind, String.ofList (c :: tail))] endsName := by
  have halpha : c.isAlpha = true := isAlpha_iff.mpr (.inr hc)
  have hother : ∀ d, d.isAlpha = false → c ≠ d := by
    rintro d hd rfl
    rw [halpha] at hd
    cases hd
  refine cuts_lexeme ?_ hchar h fun rest hrest => ⟨longest?_name halpha htail hrest, ?_⟩
  · simp [isBlank, hother]
  · exact startsComment_of_ne (hother _ (by decide)) (hother _ (by decide))

/-- A text that blanking leaves as it is has the words as its tokens into which it is cut. -/
lemma lex_of_passes {place' : Place} (hpasses : Passes none source.toList [])
    (hscanned : scanned ⟨0, 0⟩ (source.toList ++ []) =
      (scanned place' []).map fun later => words ++ later) :
    ∃ tokens, Token.lex source = .ok tokens ∧ tokens.map word = words := by
  have hblank : Comment.blank source = source := by
    rw [Comment.blank, ← List.append_nil source.toList, hpasses]
    simp [blankFrom]
  have hend : scanned place' [] = some [] := by
    rw [scanned, scan]
    rfl
  rw [List.append_nil, hend, Option.map_some, List.append_nil] at hscanned
  obtain ⟨tokens, htokens, rfl⟩ := Option.map_eq_some_iff.mp hscanned
  refine ⟨tokens, ?_, rfl⟩
  cases hresult : scan ⟨0, 0⟩ source.toList with
  | error rest =>
    rw [hresult] at htokens
    cases htokens
  | ok found =>
    rw [hresult] at htokens
    simp only [Token.lex, hblank, hresult]
    exact congrArg Except.ok (Option.some.inj htokens)

/-- A text that is cut as a whole has the given words as its tokens. -/
lemma Cuts.lex (h : Cuts source.toList words follow) (hfollow : follow none) :
    ∃ tokens, Token.lex source = .ok tokens ∧ tokens.map word = words := by
  obtain ⟨hpasses, hscanned⟩ := h none [] hfollow
  obtain ⟨place', hscan⟩ := hscanned ⟨0, 0⟩
  exact lex_of_passes hpasses hscan

end

end Llama.Proofs
