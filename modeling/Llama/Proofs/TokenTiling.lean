import Llama.Proofs.OnePassScan

/-!
# Tokens tile the text

The tokens of a source are cut from its text, in which comments are blanked out, and leave only
blanks. Their spans say where: the value of a token is what stands in the text from the start of
its span to the end. In a source of ASCII characters all that is blanked out keeps its place, so
there a token stands in the source as well, unless a character literal is misread.
-/

namespace Llama

variable {p : Place} {x : Place × Char} {cs lexeme ds comment : List Char} {kind : TokenKind}
  {c : Char} {ts : List Token}

/-- The first place comes before the second one. -/
def Place.Before (p q : Place) : Prop := p.line < q.line ∨ p.line = q.line ∧ p.column < q.column

instance : DecidableRel Place.Before := fun _ _ => inferInstanceAs (Decidable (_ ∨ _))

lemma Place.Before.irrefl (p : Place) : ¬ p.Before p := by
  unfold Place.Before
  omega

lemma Place.Before.trans {q r : Place} (h : p.Before q) (h' : q.Before r) : p.Before r := by
  unfold Place.Before at h h' ⊢
  omega

/-- From a place to one that does not come before a third one. -/
lemma Place.Before.trans_not {q r : Place} (h : p.Before q) (h' : ¬ r.Before q) : p.Before r := by
  unfold Place.Before at h h' ⊢
  omega

/-- The place is in the span. -/
def Span.Covers (s : Span) (p : Place) : Prop := ¬ p.Before s.start ∧ p.Before s.stop

instance (s : Span) (p : Place) : Decidable (s.Covers p) := inferInstanceAs (Decidable (_ ∧ _))

/-- The place after a character. Columns count bytes. -/
def Place.next (p : Place) (c : Char) : Place :=
  if c = '\n' then ⟨p.line + 1, 0⟩ else ⟨p.line, p.column + c.utf8Size⟩

/-- The place after a text. -/
def Place.after (p : Place) (cs : List Char) : Place := cs.foldl Place.next p

namespace Proofs

open Lexeme Comment Token

/-- The characters of a text that starts at the given place, with their places. -/
def placed : Place → List Char → List (Place × Char)
  | _, [] => []
  | p, c :: cs => (p, c) :: placed (p.next c) cs

/-- What stands in a span of a text that starts at the given place. -/
def slice (p : Place) (cs : List Char) (span : Span) : List Char :=
  ((placed p cs).filter fun x => span.Covers x.1).map Prod.snd

section

variable {p : Place} {c : Char} {cs ds : List Char} {span : Span}

lemma before_next (p : Place) (c : Char) : p.Before (p.next c) := by
  have hsize := c.utf8Size_pos
  unfold Place.Before Place.next
  split
  · left
    exact Nat.lt_succ_self p.line
  · right
    exact ⟨rfl, by simp only; omega⟩

lemma after_append (p : Place) (cs ds : List Char) : p.after (cs ++ ds) = (p.after cs).after ds :=
  List.foldl_append

lemma not_after_before (p : Place) (cs : List Char) : ¬ (p.after cs).Before p := by
  induction cs generalizing p with
  | nil => exact Place.Before.irrefl p
  | cons c cs ih =>
    intro hbefore
    exact ih (p.next c) (hbefore.trans (before_next p c))

/-- A text stands at its place or after it. -/
lemma not_before_of_mem_placed (hx : x ∈ placed p cs) : ¬ x.1.Before p := by
  induction cs generalizing p with
  | nil => exact absurd hx List.not_mem_nil
  | cons c cs ih =>
    rcases List.mem_cons.mp hx with rfl | hx
    · exact Place.Before.irrefl p
    · intro hbefore
      exact ih hx (hbefore.trans (before_next p c))

/-- A text stands before the place after it. -/
lemma before_after_of_mem_placed (hx : x ∈ placed p cs) : x.1.Before (p.after cs) := by
  induction cs generalizing p with
  | nil => exact absurd hx List.not_mem_nil
  | cons c cs ih =>
    rcases List.mem_cons.mp hx with rfl | hx
    · exact (before_next p c).trans_not (not_after_before (p.next c) cs)
    · exact ih hx

lemma placed_append (p : Place) (cs ds : List Char) :
    placed p (cs ++ ds) = placed p cs ++ placed (p.after cs) ds := by
  induction cs generalizing p with
  | nil => rfl
  | cons c cs ih =>
    rw [List.cons_append, placed, placed, ih, List.cons_append]
    rfl

lemma map_placed (p : Place) (cs : List Char) : (placed p cs).map Prod.snd = cs := by
  induction cs generalizing p with
  | nil => rfl
  | cons c cs ih => rw [placed, List.map_cons, ih]

lemma slice_append (p : Place) (cs ds : List Char) (span : Span) :
    slice p (cs ++ ds) span = slice p cs span ++ slice (p.after cs) ds span := by
  unfold slice
  rw [placed_append, List.filter_append, List.map_append]

lemma slice_all (h : ∀ x ∈ placed p cs, span.Covers x.1) : slice p cs span = cs := by
  have hfilter : ((placed p cs).filter fun x => span.Covers x.1) = placed p cs :=
    List.filter_eq_self.mpr fun x hx => decide_eq_true (h x hx)
  rw [slice, hfilter, map_placed]

lemma slice_none (h : ∀ x ∈ placed p cs, ¬ span.Covers x.1) : slice p cs span = [] := by
  have hfilter : ((placed p cs).filter fun x => span.Covers x.1) = [] :=
    List.filter_eq_nil_iff.mpr fun x hx => by simpa using h x hx
  rw [slice, hfilter, List.map_nil]

/-- A text stands in the span from its place to the place after it. -/
lemma slice_front (p : Place) (cs ds : List Char) : slice p (cs ++ ds) ⟨p, p.after cs⟩ = cs := by
  have hfront : slice p cs ⟨p, p.after cs⟩ = cs :=
    slice_all fun x hx => ⟨not_before_of_mem_placed hx, before_after_of_mem_placed hx⟩
  have hrest : slice (p.after cs) ds ⟨p, p.after cs⟩ = [] :=
    slice_none fun x hx hcovers => not_before_of_mem_placed hx hcovers.2
  rw [slice_append, hfront, hrest, List.append_nil]

/-- A span that starts after the front of a text takes nothing from it. -/
lemma slice_skip (h : ¬ span.start.Before (p.after cs)) :
    slice p (cs ++ ds) span = slice (p.after cs) ds span := by
  have hfront : slice p cs span = [] := slice_none fun x hx hcovers =>
    hcovers.1 ((before_after_of_mem_placed hx).trans_not h)
  rw [slice_append, hfront, List.nil_append]

end

/-- The token stands at the place, with the lexeme as its value. -/
structure StandsAt (t : Token) (p : Place) (lexeme : List Char) : Prop where
  span : t.span = ⟨p, p.after lexeme⟩
  value : t.value = String.ofList lexeme
  line : t.line = p.line + 1
  column : t.column = p.column + 1
  ne_nil : lexeme ≠ []
  /-- The lexeme was the longest one in front of some text. -/
  longest : ∃ cs, longest? cs = some (t.kind, lexeme)

/-- From a place on, a source and a text both show the tokens: these stand in both, and besides
them there are only blanks in the text, each in the place of a character of the source. -/
inductive Shows : Place → List Char → List Char → List Token → Prop
  | done (p : Place) : Shows p [] [] []
  | blank {p : Place} {c d : Char} {cs ds : List Char} {ts : List Token} :
      isBlank d = true → p.next c = p.next d → Shows (p.next d) cs ds ts →
      Shows p (c :: cs) (d :: ds) ts
  | token {p : Place} {t : Token} {lexeme cs ds : List Char} {ts : List Token} :
      StandsAt t p lexeme → Shows (p.after lexeme) cs ds ts →
      Shows p (lexeme ++ cs) (lexeme ++ ds) (t :: ts)

namespace Shows

variable {p : Place} {cs ds : List Char} {ts : List Token}

/-- The tokens that show start at the place or after it. -/
lemma not_start_before (h : Shows p cs ds ts) : ∀ t ∈ ts, ¬ t.span.start.Before p := by
  induction h with
  | done p => exact nofun
  | blank _ _ _ ih =>
    intro t ht hbefore
    exact ih t ht (hbefore.trans (before_next _ _))
  | @token p t lexeme cs ds ts hstands _ ih =>
    refine List.forall_mem_cons.mpr ⟨?_, ?_⟩
    · rw [hstands.span]
      exact Place.Before.irrefl p
    · intro t' ht' hbefore
      exact ih t' ht' (hbefore.trans_not (not_after_before p lexeme))

lemma exists_standsAt (h : Shows p cs ds ts) : ∀ t ∈ ts, ∃ q lexeme, StandsAt t q lexeme := by
  induction h with
  | done p => exact nofun
  | blank _ _ _ ih => exact ih
  | token hstands _ ih => exact List.forall_mem_cons.mpr ⟨⟨_, _, hstands⟩, ih⟩

/-- Each token ends before the next one starts. -/
lemma pairwise (h : Shows p cs ds ts) :
    ts.Pairwise fun t t' => ¬ t'.span.start.Before t.span.stop := by
  induction h with
  | done p => exact .nil
  | blank _ _ _ ih => exact ih
  | token hstands hrest ih =>
    apply List.Pairwise.cons ?_ ih
    rw [hstands.span]
    exact hrest.not_start_before

/-- The value of a token is what stands in its span. -/
lemma slice_eq_value (h : Shows p cs ds ts) : ∀ t ∈ ts, slice p cs t.span = t.value.toList := by
  induction h with
  | done p => exact nofun
  | @blank p c d cs ds ts _ hnext hrest ih =>
    intro t ht
    have hstart : ¬ t.span.start.Before (p.after [c]) := by
      have hafter : p.after [c] = p.next d := hnext
      rw [hafter]
      exact hrest.not_start_before t ht
    have hskip : slice p ([c] ++ cs) t.span = slice (p.after [c]) cs t.span := slice_skip hstart
    rw [← ih t ht, ← hnext]
    exact hskip
  | @token p t lexeme cs ds ts hstands hrest ih =>
    refine List.forall_mem_cons.mpr ⟨?_, ?_⟩
    · rw [hstands.span, hstands.value, String.toList_ofList]
      exact slice_front p lexeme cs
    · intro t' ht'
      rw [slice_skip (hrest.not_start_before t' ht')]
      exact ih t' ht'

/-- What no token covers is blank in the text. -/
lemma isBlank_of_not_covered (h : Shows p cs ds ts) :
    ∀ x ∈ placed p ds, (∀ t ∈ ts, ¬ t.span.Covers x.1) → isBlank x.2 = true := by
  induction h with
  | done p => exact nofun
  | blank hd _ _ ih => exact List.forall_mem_cons.mpr ⟨fun _ => hd, ih⟩
  | @token p t lexeme cs ds ts hstands _ ih =>
    intro x hx hcovers
    obtain ⟨hfirst, hothers⟩ := List.forall_mem_cons.mp hcovers
    rw [placed_append] at hx
    rcases List.mem_append.mp hx with hx | hx
    · rw [hstands.span] at hfirst
      exact absurd ⟨not_before_of_mem_placed hx, before_after_of_mem_placed hx⟩ hfirst
    · exact ih x hx hothers

end Shows

lemma newline_notMem_stringBody {body : List Char} (h : stringBody? cs = some body) :
    '\n' ∉ body := by
  fun_induction stringBody? cs generalizing body with
  | case1 cs =>
    cases h
    decide
  | case2 cs => cases h
  | case3 c cs hc ih =>
    obtain ⟨body, hbody, rfl⟩ := Option.map_eq_some_iff.mp h
    simp [ih hbody, Ne.symm hc]
  | case4 c cs _ _ hc => cases h
  | case5 c cs _ _ hc ih =>
    simp only [Bool.or_eq_true, decide_eq_true_eq, not_or] at hc
    obtain ⟨body, hbody, rfl⟩ := Option.map_eq_some_iff.mp h
    simp [ih hbody, Ne.symm hc.2]
  | case6 => cases h

lemma newline_notMem_of_forall {p : Char → Bool} (hp : p '\n' = false) (h : ∀ c ∈ cs, p c = true) :
    '\n' ∉ cs := by
  intro hmem
  rw [h _ hmem] at hp
  cases hp

lemma newline_notMem_exponent (cs : List Char) : '\n' ∉ exponent cs := by
  rcases exponent_cases cs with hnone | ⟨mark, sign, ds, run, hmark, hsign, -, hrun, hexponent⟩
  · rw [hnone]
    exact List.not_mem_nil
  · have hdigits : '\n' ∉ run := by
      obtain ⟨rfl, -⟩ := digits?_eq_some hrun
      exact newline_notMem_of_forall (by decide) fun d hd => List.mem_takeWhile_imp hd
    simp only [List.mem_cons, List.not_mem_nil, or_false] at hsign
    rw [hexponent]
    rcases hmark with rfl | rfl <;> rcases hsign with rfl | rfl | rfl <;> simp [hdigits]

/-- No token goes over the end of a line. -/
lemma newline_notMem_lexeme (h : ofKind? kind cs = some lexeme) : '\n' ∉ lexeme := by
  cases htext : kind.text with
  | some text =>
    obtain ⟨rfl, -⟩ := eq_of_ofKind?_text htext h
    intro hmem
    revert htext hmem
    cases kind <;> simp only [TokenKind.text, Option.some.injEq, reduceCtorEq, false_implies] <;>
      rintro rfl <;> decide
  | none =>
    rcases kind_of_text_eq_none htext with rfl | rfl | rfl | rfl | rfl | rfl
    · obtain ⟨c, cs, -, hfirst, rfl⟩ := name?_split h
      have htail : '\n' ∉ cs.takeWhile isNameChar :=
        newline_notMem_of_forall (by decide) fun d hd => List.mem_takeWhile_imp hd
      have hc : '\n' ≠ c := by rintro rfl; cases hfirst
      simp [htail, hc]
    · obtain ⟨c, cs, -, hfirst, rfl⟩ := name?_split h
      have htail : '\n' ∉ cs.takeWhile isNameChar :=
        newline_notMem_of_forall (by decide) fun d hd => List.mem_takeWhile_imp hd
      have hc : '\n' ≠ c := by rintro rfl; cases hfirst
      simp [htail, hc]
    · obtain ⟨rfl, -⟩ := digits?_eq_some h
      exact newline_notMem_of_forall (by decide) fun d hd => List.mem_takeWhile_imp hd
    · obtain ⟨whole, ds, fraction, hwhole, -, hfraction, rfl⟩ := float?_eq_some h
      obtain ⟨rfl, -⟩ := digits?_eq_some hwhole
      obtain ⟨rfl, -⟩ := digits?_eq_some hfraction
      have hdigits : ∀ cs : List Char, '\n' ∉ cs.takeWhile Char.isDigit := fun cs =>
        newline_notMem_of_forall (by decide) fun d hd => List.mem_takeWhile_imp hd
      simp [hdigits, newline_notMem_exponent]
    · obtain ⟨hlexeme, -⟩ := char?_eq_some_iff.mp h
      cases hlexeme with
      | plain c _ _ hline => simp [Ne.symm hline]
      | escape c hline => simp [Ne.symm hline]
      | code a b ha hb =>
        have hdigit : ∀ {d : Char}, Text.isHexDigit d = true → '\n' ≠ d := by
          rintro d hd rfl
          cases hd
        simp [hdigit ha, hdigit hb]
    · have hstring : string? cs = some lexeme := h
      unfold string? at hstring
      split at hstring
      next cs =>
        obtain ⟨body, hbody, rfl⟩ := Option.map_eq_some_iff.mp hstring
        simp [newline_notMem_stringBody hbody]
      next => cases hstring

/-- A lexeme stands at the front of the input. -/
lemma exists_append_of_ofKind? (h : ofKind? kind cs = some lexeme) :
    ∃ rest, cs = lexeme ++ rest := by
  cases htext : kind.text with
  | some text => exact (eq_of_ofKind?_text htext h).2
  | none =>
    rcases kind_of_text_eq_none htext with rfl | rfl | rfl | rfl | rfl | rfl
    · obtain ⟨c, cs, rfl, -, rfl⟩ := name?_split h
      exact ⟨cs.dropWhile isNameChar, by simp⟩
    · obtain ⟨c, cs, rfl, -, rfl⟩ := name?_split h
      exact ⟨cs.dropWhile isNameChar, by simp⟩
    · exact ⟨_, (digits?_split h).1⟩
    · have hpasses : ∃ rest, cs = lexeme ++ rest ∧ Passes none lexeme rest := passes_float h
      obtain ⟨rest, hcs, -⟩ := hpasses
      exact ⟨rest, hcs⟩
    · exact (char?_eq_some_iff.mp h).2
    · obtain ⟨rest, hcs, -⟩ := passes_string none h
      exact ⟨rest, hcs⟩

lemma foldl_byteSize (cs : List Char) (n : Nat) :
    cs.foldl (fun size c => size + c.utf8Size) n = n + byteSize cs := by
  unfold byteSize
  induction cs generalizing n with
  | nil => rfl
  | cons c cs ih =>
    rw [List.foldl_cons, List.foldl_cons, ih, ih (0 + c.utf8Size)]
    omega

/-- On one line the column goes up by the number of bytes. -/
lemma after_of_notMem (p : Place) (h : '\n' ∉ cs) :
    p.after cs = ⟨p.line, p.column + byteSize cs⟩ := by
  have hline : p.after cs =
      ⟨p.line, cs.foldl (fun size c => size + c.utf8Size) p.column⟩ := by
    induction cs generalizing p with
    | nil => rfl
    | cons c cs ih =>
      obtain ⟨hc, hcs⟩ := List.ne_and_not_mem_of_not_mem_cons h
      have hnext : p.next c = ⟨p.line, p.column + c.utf8Size⟩ := if_neg (Ne.symm hc)
      have hafter : p.after (c :: cs) = (p.next c).after cs := rfl
      rw [hafter, hnext, ih _ hcs, List.foldl_cons]
  rw [hline, foldl_byteSize]

lemma standsAt_ofLexeme (h : longest? cs = some (kind, lexeme)) :
    StandsAt (ofLexeme p kind lexeme) p lexeme where
  span := by
    rw [after_of_notMem p (newline_notMem_lexeme (ofKind?_of_longest? h))]
    rfl
  value := value_of_longest? h
  line := rfl
  column := rfl
  ne_nil := ne_nil_of_ofKind? (ofKind?_of_longest? h)
  longest := ⟨cs, h⟩

lemma scan_blank (hc : isBlank c = true) : scan p (c :: cs) = scan (p.next c) cs := by
  have hnext : skipBlank p c = p.next c := by
    simp only [isBlank, Bool.or_eq_true, beq_iff_eq] at hc
    rcases hc with (((rfl | rfl) | rfl) | rfl) | rfl <;> rfl
  rw [scan, if_pos hc, hnext]

lemma scan_lexeme {tail : List Char} (hc : isBlank c = false)
    (hlongest : longest? (c :: (tail ++ cs)) = some (kind, c :: tail))
    (hscan : scan p (c :: (tail ++ cs)) = .ok ts) :
    ∃ ts', ts = ofLexeme p kind (c :: tail) :: ts' ∧ scan (p.after (c :: tail)) cs = .ok ts' := by
  have hstop : (ofLexeme p kind (c :: tail)).span.stop = p.after (c :: tail) := by
    rw [(standsAt_ofLexeme hlongest).span]
  have hdrop : (tail ++ cs).drop ((c :: tail).length - 1) = cs := by simp
  rw [scan, if_neg (by simp [hc]), hlongest] at hscan
  simp only [hdrop, hstop] at hscan
  cases hrest : scan (p.after (c :: tail)) cs with
  | error rest =>
    rw [hrest] at hscan
    cases hscan
  | ok ts' =>
    rw [hrest] at hscan
    exact ⟨ts', (Except.ok.inj hscan).symm, rfl⟩

/-- A text shows the tokens that are cut from it. -/
lemma shows_scan (h : scan p cs = .ok ts) : Shows p cs cs ts := by
  induction hlength : cs.length using Nat.strong_induction_on generalizing p cs ts with
  | _ n ih =>
    cases cs with
    | nil =>
      rw [scan] at h
      cases h
      exact .done p
    | cons c cs =>
      by_cases hc : isBlank c = true
      · rw [scan_blank hc] at h
        exact .blank hc rfl (ih cs.length (by simp [← hlength]) h rfl)
      · cases hlongest : longest? (c :: cs) with
        | none =>
          rw [scan, if_neg hc, hlongest] at h
          cases h
        | some found =>
          obtain ⟨kind, lexeme⟩ := found
          have hstands : StandsAt (ofLexeme p kind lexeme) p lexeme := standsAt_ofLexeme hlongest
          obtain ⟨rest, hrest⟩ := exists_append_of_ofKind? (ofKind?_of_longest? hlongest)
          obtain ⟨d, tail, rfl⟩ := List.exists_cons_of_ne_nil hstands.ne_nil
          rw [hrest] at h hlongest ⊢
          obtain ⟨rfl, -⟩ := List.cons.inj hrest
          obtain ⟨ts', rfl, hscan⟩ := scan_lexeme (by simpa using hc) hlongest h
          have hshorter : rest.length < n := by
            rw [← hlength, hrest]
            simp only [List.length_append, List.length_cons]
            omega
          exact .token hstands (ih rest.length hshorter hscan rfl)

/-- All characters are ASCII. -/
def Ascii (cs : List Char) : Prop := ∀ c ∈ cs, c.toNat < 128

instance (cs : List Char) : Decidable (Ascii cs) :=
  decidable_of_iff (cs.all (fun c => c.toNat < 128) = true) (by simp [Ascii])

lemma Ascii.append_left (h : Ascii (cs ++ ds)) : Ascii cs :=
  fun c hc => h c (List.mem_append_left ds hc)

lemma Ascii.append_right (h : Ascii (cs ++ ds)) : Ascii ds :=
  fun c hc => h c (List.mem_append_right cs hc)

/-- Blanking out an ASCII character moves nothing. -/
lemma next_blankOut (p : Place) (h : c.toNat < 128) : p.next (blankOut c) = p.next c := by
  by_cases hc : c = '\n'
  · subst hc
    rfl
  · have hsize : c.utf8Size = 1 := by
      rw [Char.utf8Size_eq_one_iff]
      exact Nat.le_of_lt_succ h
    have hspace : blankOut c = ' ' := if_neg hc
    unfold Place.next
    rw [hspace, if_neg hc, hsize]
    rfl

lemma after_blankOut (p : Place) (h : Ascii comment) :
    p.after (comment.map blankOut) = p.after comment := by
  induction comment generalizing p with
  | nil => rfl
  | cons c comment ih =>
    obtain ⟨hc, hrest⟩ := List.forall_mem_cons.mp h
    have hfirst : p.after ((c :: comment).map blankOut) =
        (p.next (blankOut c)).after (comment.map blankOut) := rfl
    rw [hfirst, next_blankOut p hc, ih _ hrest]
    rfl

lemma Hides.shows {front gap : List Char} (h : Hides front gap) (hascii : Ascii front)
    (hscan : scan p (gap ++ ds) = .ok ts) (hrest : ∀ q, scan q ds = .ok ts → Shows q cs ds ts) :
    Shows p (front ++ cs) (gap ++ ds) ts := by
  induction h generalizing p with
  | nil => exact hrest p hscan
  | @cons c d front gap hd _ ih =>
    obtain ⟨hc, hfront⟩ := List.forall_mem_cons.mp hascii
    rw [List.cons_append, scan_blank hd.1] at hscan
    have hnext : p.next c = p.next d := by
      rcases hd.2 with rfl | rfl
      · rfl
      · exact (next_blankOut p hc).symm
    exact .blank hd.1 hnext (ih hfront hscan)

/-- Where the parts of a source show in a text, both show the tokens that are cut from the text. -/
lemma Parted.shows {ps : List Piece} (h : Parted cs ds ps) (hascii : Ascii cs)
    (hscan : scan p ds = .ok ts) : Shows p cs ds ts := by
  induction h generalizing p ts with
  | nil => exact shows_scan hscan
  | gap hhides _ ih =>
    exact hhides.shows hascii.append_left hscan fun q hq => ih hascii.append_right hq
  | @token kind c tail cs ds ps hc hlongest _ ih =>
    obtain ⟨ts', rfl, hrest⟩ := scan_lexeme hc hlongest hscan
    rw [← List.cons_append] at hascii
    exact .token (standsAt_ofLexeme hlongest) (ih hascii.append_right hrest)
  | junk hd hnone =>
    rw [scan, if_neg (by simp [hd]), hnone] at hscan
    cases hscan

/-- The second text is the first one with some of its comments blanked out. -/
inductive Blanked : List Char → List Char → Prop
  | nil : Blanked [] []
  | keep (c : Char) {cs ds : List Char} : Blanked cs ds → Blanked (c :: cs) (c :: ds)
  | comment {comment rest ds : List Char} :
      afterComment? (comment ++ rest) = some rest → Blanked rest ds →
      Blanked (comment ++ rest) (comment.map blankOut ++ ds)

lemma exists_afterComment? (h : startsComment cs = true) :
    ∃ rest, afterComment? cs = some rest ∧ rest.length < cs.length := by
  unfold startsComment at h
  split at h
  next cs =>
    have hle := length_afterLine_le cs
    exact ⟨afterLine cs, rfl, by simp only [List.length_cons]; omega⟩
  next cs =>
    have hle := length_afterBlock_le 0 cs
    exact ⟨afterBlock 0 cs, rfl, by simp only [List.length_cons]; omega⟩
  next => cases h

lemma blanked_blankFrom (region : Region) (cs : List Char) (h : keepsText region = true) :
    Blanked cs (blankFrom region cs) := by
  induction hlength : cs.length using Nat.strong_induction_on generalizing region cs with
  | _ n ih =>
    cases cs with
    | nil =>
      rw [blankFrom]
      exact .nil
    | cons c cs =>
      have htail : ∀ region, keepsText region = true → Blanked cs (blankFrom region cs) :=
        fun region hregion => ih cs.length (by simp [← hlength]) region cs hregion rfl
      cases region with
      | block nested => cases h
      | line => cases h
      | code before =>
        by_cases hstart : startsComment (c :: cs) = true
        · obtain ⟨rest, hrest, hshorter⟩ := exists_afterComment? hstart
          obtain ⟨comment, before', hcs, -, hblanked⟩ := blankFrom_comment before hrest
          rw [hblanked]
          rw [hcs] at hrest ⊢
          exact .comment hrest (ih rest.length (by omega) (.code before') rest rfl rfl)
        · obtain ⟨region, hregion, hblanked⟩ :=
            exists_blankFrom_cons before (Bool.eq_false_iff.mpr hstart)
          rw [hblanked]
          exact .keep c (htail region hregion)
      | literal quote =>
        by_cases hescape : c = '\\'
        · subst hescape
          cases cs with
          | nil =>
            have hlast : blankFrom (.literal quote) ['\\'] = ['\\'] := by
              rw [blankFrom]
              split <;> rw [blankFrom]
              exact nofun
            rw [hlast]
            exact .keep _ .nil
          | cons d cs =>
            rw [blankFrom]
            refine .keep _ (.keep d (ih cs.length ?_ _ cs rfl rfl))
            simp only [← hlength, List.length_cons]
            omega
        · rw [blankFrom_literal hescape]
          refine .keep c (htail _ ?_)
          split <;> rfl

/-- The place lies in a comment of the source, which is blanked out in the text. -/
def InComment (source text : List Char) (p q : Place) : Prop :=
  ∃ front comment rest front' rest', source = front ++ (comment ++ rest) ∧
    afterComment? (comment ++ rest) = some rest ∧
    text = front' ++ (comment.map blankOut ++ rest') ∧ front'.length = front.length ∧
    ¬ q.Before (p.after front) ∧ q.Before (p.after (front ++ comment))

/-- A character of a source stands in the text too, in the same place, unless it is part of a
comment. -/
lemma Blanked.mem_or_inComment (h : Blanked cs ds) (hascii : Ascii cs) (hx : x ∈ placed p cs) :
    x ∈ placed p ds ∨ InComment cs ds p x.1 := by
  induction h generalizing p with
  | nil => exact absurd hx List.not_mem_nil
  | @keep c cs ds _ ih =>
    obtain ⟨-, hcs⟩ := List.forall_mem_cons.mp hascii
    rcases List.mem_cons.mp hx with rfl | hx
    · exact .inl List.mem_cons_self
    · rcases ih hcs hx with hmem |
        ⟨front, comment, rest, front', rest', rfl, hend, rfl, hlength, hin⟩
      · exact .inl (List.mem_cons_of_mem _ hmem)
      · right
        exact ⟨c :: front, comment, rest, c :: front', rest', rfl, hend, rfl,
          by rw [List.length_cons, hlength, List.length_cons], hin⟩
  | @comment comment rest ds hend _ ih =>
    rw [placed_append] at hx
    rcases List.mem_append.mp hx with hx | hx
    · right
      exact ⟨[], comment, rest, [], ds, rfl, hend, rfl, rfl, not_before_of_mem_placed hx,
        before_after_of_mem_placed hx⟩
    · rw [placed_append, after_blankOut p hascii.append_left]
      rcases ih hascii.append_right hx with
        hmem | ⟨front, comment', rest', front', rest'', rfl, hend', rfl, hlength, hin⟩
      · exact .inl (List.mem_append_right _ hmem)
      · right
        refine ⟨comment ++ front, comment', rest', comment.map blankOut ++ front', rest'', ?_,
          hend', ?_, ?_, ?_⟩
        · rw [List.append_assoc]
        · rw [List.append_assoc]
        · rw [List.length_append, List.length_append, List.length_map, hlength]
        · rw [List.append_assoc, after_append, after_append]
          exact hin

/-- Blanking out ASCII characters keeps their places. -/
lemma placed_blankOut (p : Place) (h : Ascii comment) :
    placed p (comment.map blankOut) = (placed p comment).map fun x => (x.1, blankOut x.2) := by
  induction comment generalizing p with
  | nil => rfl
  | cons c comment ih =>
    obtain ⟨hc, hrest⟩ := List.forall_mem_cons.mp h
    rw [List.map_cons, placed, placed, List.map_cons, next_blankOut p hc, ih _ hrest]

lemma slice_blankOut (p : Place) (span : Span) (h : Ascii comment) :
    slice p (comment.map blankOut) span = (slice p comment span).map blankOut := by
  unfold slice
  rw [placed_blankOut p h, List.filter_map, List.map_map, List.map_map]
  rfl

/-- What stands in a span of the text without blanks stands there in the source as well. -/
lemma Blanked.slice_eq (h : Blanked cs ds) (hascii : Ascii cs) (p : Place) {span : Span}
    (hvalue : ∀ c ∈ slice p ds span, isBlank c = false) : slice p cs span = slice p ds span := by
  induction h generalizing p with
  | nil => rfl
  | @keep c cs ds _ ih =>
    have hcs := slice_append p [c] cs span
    have hds := slice_append p [c] ds span
    rw [List.singleton_append] at hcs hds
    rw [hds] at hvalue ⊢
    rw [hcs, ih (List.forall_mem_cons.mp hascii).2 _ (List.forall_mem_append.mp hvalue).2]
  | @comment comment rest ds _ _ ih =>
    have htext : slice p (comment.map blankOut ++ ds) span =
        (slice p comment span).map blankOut ++ slice (p.after comment) ds span := by
      rw [slice_append, slice_blankOut p span hascii.append_left,
        after_blankOut p hascii.append_left]
    rw [htext] at hvalue ⊢
    obtain ⟨hcomment, hrest⟩ := List.forall_mem_append.mp hvalue
    -- What is blanked out is blank, so the span takes nothing from the comment.
    have hnone : slice p comment span = [] := by
      cases hslice : slice p comment span with
      | nil => rfl
      | cons c cs =>
        have hc := hcomment (blankOut c) (by simp [hslice])
        rw [isBlank_blankOut] at hc
        cases hc
    rw [slice_append, hnone, ih hascii.append_right _ hrest]
    rfl

/-- The tokens stand in the text in order, and leave only blanks. -/
structure TokensTile (text : List Char) (tokens : List Token) : Prop where
  nonempty : ∀ t ∈ tokens, t.span.start.Before t.span.stop
  /-- No token starts before an earlier one ends. -/
  disjoint : tokens.Pairwise fun t t' => ¬ t'.span.start.Before t.span.stop
  value : ∀ t ∈ tokens, slice ⟨0, 0⟩ text t.span = t.value.toList
  isBlank : ∀ x ∈ placed ⟨0, 0⟩ text, (∀ t ∈ tokens, ¬ t.span.Covers x.1) → isBlank x.2 = true
  /-- Lines and columns count from one. -/
  position : ∀ t ∈ tokens, t.line = t.span.start.line + 1 ∧ t.column = t.span.start.column + 1

lemma Shows.tiles {text : List Char} {tokens : List Token}
    (h : Shows ⟨0, 0⟩ text text tokens) : TokensTile text tokens where
  nonempty t ht := by
    obtain ⟨q, lexeme, hstands⟩ := h.exists_standsAt t ht
    obtain ⟨c, tail, rfl⟩ := List.exists_cons_of_ne_nil hstands.ne_nil
    rw [hstands.span]
    exact before_after_of_mem_placed (x := (q, c)) List.mem_cons_self
  disjoint := h.pairwise
  value := h.slice_eq_value
  isBlank := h.isBlank_of_not_covered
  position t ht := by
    obtain ⟨q, lexeme, hstands⟩ := h.exists_standsAt t ht
    rw [hstands.span]
    exact ⟨hstands.line, hstands.column⟩

lemma scan_of_lex {source : String} {tokens : List Token} (h : lex source = .ok tokens) :
    scan ⟨0, 0⟩ (blank source).toList = .ok tokens := by
  simp only [lex] at h
  cases hscan : scan ⟨0, 0⟩ (blank source).toList with
  | error rest =>
    rw [hscan] at h
    cases h
  | ok tokens' =>
    rw [hscan] at h
    exact congrArg Except.ok (Except.ok.inj h)

/-- Tokens tile the text of a source. In a source of ASCII characters, a token without blanks
stands in the source as it stands in the text, all tokens do so unless a character literal is
misread, and a character outside the tokens is a blank or part of a comment that was blanked
out. -/
theorem lex_tiles (source : String) (tokens : List Token) (h : lex source = .ok tokens) :
    TokensTile (blank source).toList tokens ∧
    (Ascii source.toList →
      (∀ t ∈ tokens, (∀ c ∈ t.value.toList, isBlank c = false) →
        slice ⟨0, 0⟩ source.toList t.span = t.value.toList) ∧
      (((pieces source.toList).IsChain fun p q => misread p q = false) →
        ∀ t ∈ tokens, slice ⟨0, 0⟩ source.toList t.span = t.value.toList) ∧
      ∀ x ∈ placed ⟨0, 0⟩ source.toList, isBlank x.2 = false →
        (∀ t ∈ tokens, ¬ t.span.Covers x.1) →
        InComment source.toList (blank source).toList ⟨0, 0⟩ x.1) := by
  have hscan := scan_of_lex h
  have htiles : TokensTile (blank source).toList tokens := (shows_scan hscan).tiles
  refine ⟨htiles, fun hascii => ?_⟩
  have hblanked : Blanked source.toList (blank source).toList := by
    rw [blank, String.toList_ofList]
    exact blanked_blankFrom (.code none) source.toList rfl
  refine ⟨?_, ?_, ?_⟩
  · intro t ht hvalue
    rw [← htiles.value t ht] at hvalue ⊢
    exact hblanked.slice_eq hascii ⟨0, 0⟩ hvalue
  · intro hchain
    have hparted : Parted source.toList (blank source).toList (pieces source.toList) := by
      have hfirst : (Piece.gap :: pieces source.toList).IsChain fun p q => misread p q = false := by
        cases hpieces : pieces source.toList with
        | nil => exact .singleton _
        | cons p ps => exact .cons_cons rfl (hpieces ▸ hchain)
      rw [blank, String.toList_ofList]
      exact parted_blankFrom source.toList (fun hnone => by cases hnone) hfirst
    exact (hparted.shows hascii hscan).slice_eq_value
  · intro x hx hvisible hcovers
    rcases hblanked.mem_or_inComment hascii hx with hmem | hcomment
    · rw [htiles.isBlank x hmem hcovers] at hvisible
      cases hvisible
    · exact hcomment

/-- A comment over two lines, a comment marker in a string, and a comment at the end. -/
def commentedSource : String := "x (* '\n *) \"--\"-- y"

def commentedTokens : List Token :=
  [ofLexeme ⟨0, 0⟩ .genid ['x'], ofLexeme ⟨1, 4⟩ .stringLiteral ['"', '-', '-', '"']]

theorem lex_tiles_commentedSource :
    lex commentedSource = .ok commentedTokens ∧
    TokensTile (blank commentedSource).toList commentedTokens ∧
    (∀ t ∈ commentedTokens, slice ⟨0, 0⟩ commentedSource.toList t.span = t.value.toList) ∧
    InComment commentedSource.toList (blank commentedSource).toList ⟨0, 0⟩ ⟨0, 5⟩ := by
  have hlex : lex commentedSource = .ok commentedTokens := by decide +kernel
  have hascii : Ascii commentedSource.toList := by decide +kernel
  have hchain : (pieces commentedSource.toList).IsChain fun p q => misread p q = false := by
    decide +kernel
  obtain ⟨htiles, hsource⟩ := lex_tiles commentedSource commentedTokens hlex
  obtain ⟨-, hvalues, houtside⟩ := hsource hascii
  refine ⟨hlex, htiles, hvalues hchain, ?_⟩
  exact houtside (⟨0, 5⟩, '\'') (by decide +kernel) (by decide) (by decide +kernel)

/-- In `1'"'"(**)"` the quotes of the character are taken for the end of a name and for a string, so
that what stands in the string after it is taken for a comment: the value of the last token is not
what stands in the source. -/
theorem lex_misread_slice :
    lex "1'\"'\"(**)\"" = .ok [ofLexeme ⟨0, 0⟩ .intLiteral ['1'],
      ofLexeme ⟨0, 1⟩ .charLiteral ['\'', '"', '\''],
      ofLexeme ⟨0, 4⟩ .stringLiteral ['"', ' ', ' ', ' ', ' ', '"']] ∧
    Ascii "1'\"'\"(**)\"".toList ∧
    slice ⟨0, 0⟩ "1'\"'\"(**)\"".toList
      (ofLexeme ⟨0, 4⟩ .stringLiteral ['"', ' ', ' ', ' ', ' ', '"']).span =
        "\"(**)\"".toList ∧
    (ofLexeme ⟨0, 4⟩ .stringLiteral ['"', ' ', ' ', ' ', ' ', '"']).value = "\"    \"" := by
  decide +kernel

end Proofs

end Llama
