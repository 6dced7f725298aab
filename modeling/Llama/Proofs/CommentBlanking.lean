import Llama.Proofs.TokenTiling

/-!
# Blanking out comments keeps places

Blanking puts spaces in the place of comments and leaves all else where it is, so every character
keeps its position and every line its number. In a text that has been blanked no comment is left:
the spaces neither make up a new marker with what stands around them nor change where a literal
starts. So blanking it again changes nothing.
-/

namespace Llama.Proofs

open Comment

variable {c : Char} {cs : List Char}

/-- Where in a text one stands after a character that belongs to no comment. -/
def regionAfter : Region → Char → Region
  | .code before, c =>
    if c = '"' || (c = '\'' && !continuesName before) then .literal c else .code (some c)
  | .literal quote, c => if c = quote || c = '\n' then .code (some c) else .literal quote
  | region, _ => region

/-- In a text that starts in the given region, no comment starts outside of literals. -/
inductive CommentFree : Region → List Char → Prop
  | nil (region : Region) : CommentFree region []
  | code {before : Option Char} {c : Char} {cs : List Char} :
      startsComment (c :: cs) = false → CommentFree (regionAfter (.code before) c) cs →
      CommentFree (.code before) (c :: cs)
  | escape {quote : Char} (c : Char) {cs : List Char} :
      CommentFree (.literal quote) cs → CommentFree (.literal quote) ('\\' :: c :: cs)
  | literal {quote c : Char} {cs : List Char} :
      (c = '\\' → cs = []) → CommentFree (regionAfter (.literal quote) c) cs →
      CommentFree (.literal quote) (c :: cs)

lemma blankFrom_code_after {before : Option Char} (h : startsComment (c :: cs) = false) :
    blankFrom (.code before) (c :: cs) = c :: blankFrom (regionAfter (.code before) c) cs := by
  rw [blankFrom_code h, regionAfter]
  split <;> rfl

lemma blankFrom_literal_after {quote : Char} (h : c = '\\' → cs = []) :
    blankFrom (.literal quote) (c :: cs) = c :: blankFrom (regionAfter (.literal quote) c) cs := by
  rw [blankFrom, regionAfter]
  · split <;> rfl
  · intro d ds hc hcs
    rw [h hc] at hcs
    cases hcs

/-- Where there is no comment, nothing is blanked out. -/
lemma CommentFree.blankFrom_eq {region : Region} (h : CommentFree region cs) :
    blankFrom region cs = cs := by
  induction h with
  | nil region => rw [blankFrom]
  | code hstart _ ih => rw [blankFrom_code_after hstart, ih]
  | escape c _ ih => rw [blankFrom, ih]
  | literal hlast _ ih => rw [blankFrom_literal_after hlast, ih]

/-! ### A blanked text is without comments -/

/-- The second region is where a reader of the blanked text stands who has come as far as one who
stands in the first region of the text itself. A comment is seen as space among tokens. -/
inductive Shown : Region → Region → Prop
  | code {before before' : Option Char} :
      continuesName before' = continuesName before → Shown (.code before) (.code before')
  | block (nested : Nat) {before : Option Char} :
      continuesName before = false → Shown (.block nested) (.code before)
  | line {before : Option Char} : continuesName before = false → Shown .line (.code before)
  | literal (quote : Char) : Shown (.literal quote) (.literal quote)

lemma continuesName_blank (h : c = ' ' ∨ c = '\n' ∨ c = ')') : continuesName (some c) = false := by
  rcases h with rfl | rfl | rfl <;> rw [continuesName_ascii (by decide)] <;> decide

/-- A marker does not come about by blanking out what follows its first character. -/
lemma Veiled.startsComment_cons {ds : List Char} (h : Veiled cs ds)
    (hstart : startsComment (c :: cs) = false) : startsComment (c :: ds) = false := by
  cases h with
  | nil => exact hstart
  | @keep d cs ds =>
    refine startsComment_eq_false ?_ ?_ <;>
    · rintro _ rfl hmarker
      obtain ⟨rfl, -⟩ := List.cons.inj hmarker
      cases hstart
  | line | block => exact startsComment_eq_false (fun _ _ h => by cases h) (fun _ _ h => by cases h)

lemma commentFree_blank {before : Option Char} (hc : c = ' ' ∨ c = '\n')
    (h : CommentFree (.code (some c)) cs) : CommentFree (.code before) (c :: cs) := by
  rcases hc with rfl | rfl <;> exact .code rfl h

lemma commentFree_literal {quote : Char} {region : Region}
    (hlast : ∀ d ds, c = '\\' → cs = d :: ds → False)
    (h : CommentFree (regionAfter (.literal quote) c) (blankFrom region cs)) :
    CommentFree (.literal quote) (c :: blankFrom region cs) := by
  refine .literal (fun hc => ?_) h
  cases cs with
  | nil => rw [blankFrom]
  | cons d ds => exact (hlast d ds hc rfl).elim

lemma commentFree_blankFrom (region : Region) (cs : List Char) {region' : Region}
    (h : Shown region region') : CommentFree region' (blankFrom region cs) := by
  have hspace : continuesName (some ' ') = false := continuesName_blank (.inl rfl)
  have hnewline : continuesName (some '\n') = false := continuesName_blank (.inr (.inl rfl))
  have hclosed : continuesName (some ' ') = continuesName (some ')') :=
    hspace.trans (continuesName_blank (.inr (.inr rfl))).symm
  fun_induction blankFrom region cs generalizing region' with
  | case1 => exact .nil _
  | case2 before cs ih =>
    cases h
    exact commentFree_blank (.inl rfl) (commentFree_blank (.inl rfl) (ih (.block 0 hspace)))
  | case3 before cs ih =>
    cases h
    exact commentFree_blank (.inl rfl) (commentFree_blank (.inl rfl) (ih (.line hspace)))
  | case4 before c cs hblock hline hopens ih =>
    cases h with
    | code hbefore =>
      refine .code ((veiled_blankFrom _ cs rfl).startsComment_cons
        (startsComment_eq_false hline hblock)) ?_
      rw [regionAfter, hbefore, if_pos hopens]
      exact ih (.literal c)
  | case5 before c cs hblock hline hplain ih =>
    cases h with
    | code hbefore =>
      refine .code ((veiled_blankFrom _ cs rfl).startsComment_cons
        (startsComment_eq_false hline hblock)) ?_
      rw [regionAfter, hbefore, if_neg hplain]
      exact ih (.code rfl)
  | case6 nested cs ih =>
    cases h
    exact commentFree_blank (.inl rfl) (commentFree_blank (.inl rfl) (ih (.block _ hspace)))
  | case7 cs ih =>
    cases h
    exact commentFree_blank (.inl rfl) (commentFree_blank (.inl rfl) (ih (.code hclosed)))
  | case8 nested cs ih =>
    cases h
    exact commentFree_blank (.inl rfl) (commentFree_blank (.inl rfl) (ih (.block nested hspace)))
  | case9 nested c cs _ _ _ ih =>
    cases h
    split
    · exact commentFree_blank (.inr rfl) (ih (.block nested hnewline))
    · exact commentFree_blank (.inl rfl) (ih (.block nested hspace))
  | case10 cs ih =>
    cases h
    exact commentFree_blank (.inr rfl) (ih (.code rfl))
  | case11 c cs _ ih =>
    cases h
    exact commentFree_blank (.inl rfl) (ih (.line hspace))
  | case12 quote c cs ih =>
    cases h
    exact .escape c (ih (.literal quote))
  | case13 quote c cs hlast hcloses ih =>
    cases h
    refine commentFree_literal hlast ?_
    rw [regionAfter, if_pos hcloses]
    exact ih (.code rfl)
  | case14 quote c cs hlast hinside ih =>
    cases h
    refine commentFree_literal hlast ?_
    rw [regionAfter, if_neg hinside]
    exact ih (.literal quote)

namespace Blanked

variable {cs ds : List Char}

lemma length_eq (h : Blanked cs ds) : ds.length = cs.length := by
  induction h with
  | nil => rfl
  | keep c _ ih => simp only [List.length_cons, ih]
  | comment _ _ ih => simp only [List.length_append, List.length_map, ih]

/-- A character stays, or a space takes its place; a newline stays. -/
lemma getElem?_cases (h : Blanked cs ds) (i : Nat) :
    ds[i]? = cs[i]? ∨ cs[i]? ≠ some '\n' ∧ ds[i]? = some ' ' := by
  induction h generalizing i with
  | nil => exact .inl rfl
  | keep c _ ih =>
    cases i with
    | zero => exact .inl rfl
    | succ i => exact ih i
  | @comment comment rest ds _ _ ih =>
    by_cases hi : i < comment.length
    · rw [List.getElem?_append_left (by simpa using hi), List.getElem?_append_left hi,
        List.getElem?_map, List.getElem?_eq_getElem hi, Option.map_some, blankOut]
      by_cases hc : comment[i] = '\n'
      · exact .inl (by rw [if_pos hc, hc])
      · exact .inr ⟨fun h => hc (Option.some.inj h), by rw [if_neg hc]⟩
    · rw [List.getElem?_append_right (by simpa using hi),
        List.getElem?_append_right (by simpa using hi), List.length_map]
      exact ih (i - comment.length)

end Blanked

/-- Blanking out comments keeps places. The text has as many characters as before, newlines at
exactly the same positions, and a space wherever it has changed. What has changed are comments,
none is left, and blanking the text again changes nothing. -/
theorem blank_keeps_places (source : String) :
    (blank source).length = source.length ∧
    (∀ i : Nat, (blank source).toList[i]? = some '\n' ↔ source.toList[i]? = some '\n') ∧
    (∀ i : Nat, (blank source).toList[i]? ≠ source.toList[i]? →
      (blank source).toList[i]? = some ' ') ∧
    Blanked source.toList (blank source).toList ∧
    CommentFree (.code none) (blank source).toList ∧
    blank (blank source) = blank source := by
  have htext : (blank source).toList = blankFrom (.code none) source.toList :=
    String.toList_ofList
  have hblanked : Blanked source.toList (blank source).toList := by
    rw [htext]
    exact blanked_blankFrom _ _ rfl
  have hfree : CommentFree (.code none) (blank source).toList := by
    rw [htext]
    exact commentFree_blankFrom _ _ (.code rfl)
  refine ⟨?length, fun i => ?newlines, fun i hi => ?spaces, hblanked, hfree, ?again⟩
  case length =>
    rw [← String.length_toList, ← String.length_toList]
    exact hblanked.length_eq
  case newlines =>
    rcases hblanked.getElem?_cases i with hsame | ⟨hother, hspace⟩
    · rw [hsame]
    · rw [hspace]
      exact iff_of_false (by decide) hother
  case spaces => exact ((hblanked.getElem?_cases i).resolve_left hi).2
  case again =>
    have hagain : blank (blank source) =
        String.ofList (blankFrom (.code none) (blank source).toList) :=
      rfl
    rw [hagain, hfree.blankFrom_eq, String.ofList_toList]

-- The marks around a comment do not become a mark.
example : blank "a-(* \n *)-b" = "a-   \n   -b" := by decide +kernel

end Llama.Proofs
