import Llama.Proofs.LexemeCutting
import Llama.Proofs.RecursionDepth
import Llama.Proofs.TypeReading

/-!
# The text of a type

The text of a type has parentheses only where an operand needs them. It is cut into the words of
the type, and these are read back as the type: an arrow takes all that follows, an array an
operand, and a `ref` whatever atom and other `ref` stand before it.
-/

namespace Llama.Proofs

open Llama.Parser Llama.Grammar Lexeme

/-- Whether a type stands in parentheses as the operand of `ref` or `array of`. -/
def isCompound (ty : Ty) : Bool := ty.isFunc || ty.isArray

/-- The words of the text of a type. -/
@[simp]
def printedWords : Ty → List Word
  | .array element dims =>
    terminal .kwArray :: (dimensionWords dims ++
      terminal .kwOf :: wrap (!isCompound element) (printedWords element))
  | .func source target =>
    wrap (!source.isFunc) (printedWords source) ++ terminal .arrow :: printedWords target
  | .ref inner => wrap (!isCompound inner) (printedWords inner) ++ [terminal .kwRef]
  | ty => tyWords ty

/-- The levels that are entered to read the text of a type. -/
@[simp]
def printedNesting : Ty → Nat
  | .array element _ =>
    (if isCompound element then printedNesting element + 1 else printedNesting element) + 1
  | .func source target =>
    max (if source.isFunc then printedNesting source + 1 else printedNesting source)
      (printedNesting target + 1)
  | .ref inner => if isCompound inner then printedNesting inner + 1 else printedNesting inner
  | _ => 1

lemma printedNesting_pos (ty : Ty) : 1 ≤ printedNesting ty := by
  induction ty with
  | array element dims => exact Nat.le_add_left _ _
  | func source target => exact Nat.le_trans (Nat.le_add_left _ _) (Nat.le_max_right _ _)
  | ref inner ih =>
    rw [printedNesting]
    split <;> omega
  | _ => exact Nat.le_refl _

/-- A number of `ref` after a type. -/
def addRefs : Nat → Ty → Ty
  | 0, ty => ty
  | k + 1, ty => addRefs k (.ref ty)

lemma foldl_ref {α : Type} (marks : List α) (ty : Ty) :
    marks.foldl (fun ty _ => .ref ty) ty = addRefs marks.length ty := by
  induction marks generalizing ty with
  | nil => rfl
  | cons mark marks ih => exact ih (.ref ty)

section Reading

variable {d : Deeper} {ty : Ty} {ws : List Word} {n : Nat}

lemma reads_typeOperand_refs (k : Nat)
    (h : Reads (typeAtom d) ws (fun _ => True) (fun t => t = ty)) :
    Reads (typeOperand d) (ws ++ List.replicate k (terminal .kwRef)) (fun k => k ≠ some .kwRef)
      (fun t => t = addRefs k ty) := by
  have hrefs : Reads (many (· == .kwRef) (expect .kwRef))
      ((List.replicate k ()).flatMap fun _ => [terminal .kwRef]) (fun k => k ≠ some .kwRef)
      (fun refs => refs.map (fun _ => ()) = (List.replicate k ()).map fun _ => ()) := by
    refine reads_many (fun _ => True) _ (fun _ _ => ?_) (fun _ _ => ?_) (fun k hk => ?_)
    · exact (reads_expect .kwRef _).mono (fun _ hk => hk) (fun _ _ => rfl)
    · exact ⟨_, [], rfl, rfl, trivial⟩
    · cases k with
      | none => exact ⟨trivial, rfl⟩
      | some kind => exact ⟨trivial, by simpa using hk⟩
  have hwords : List.replicate k (terminal .kwRef) =
      (List.replicate k ()).flatMap fun _ => [terminal .kwRef] := by
    simp [List.flatMap_replicate]
  unfold typeOperand
  rw [hwords]
  refine reads_bind h (fun t ht => ?_) (fun _ _ => trivial)
  refine reads_bind_last hrefs (fun refs hlen => reads_pure ?_)
  have hcount : refs.length = k := by simpa using congrArg List.length hlen
  rw [foldl_ref, hcount, ht]

/-- The text of a type is read back as the type. -/
def TextReads (ty : Ty) : Prop :=
  ∀ n, printedNesting ty ≤ n + 1 →
    Reads (arrowType (deeper n)) (printedWords ty) endsType (fun t => t = ty)

/-- The text of a type that is no function is read back as an operand, with any `ref` after it,
which an array lacks. -/
def OperandReads (ty : Ty) : Prop :=
  ∀ n k, (ty.isArray = true → k = 0) → printedNesting ty ≤ n + 1 →
    Reads (typeOperand (deeper n)) (printedWords ty ++ List.replicate k (terminal .kwRef))
      (fun k => k ≠ some .kwRef) (fun t => t = addRefs k ty)

lemma OperandReads.text (h : OperandReads ty) : TextReads ty := by
  intro n hn
  have hoperand := h n 0 (fun _ => rfl) hn
  rw [List.replicate_zero, List.append_nil] at hoperand
  exact reads_arrowType_of_operand hoperand

/-- A type in parentheses is an atom. -/
lemma TextReads.parens (h : TextReads ty) (hn : printedNesting ty + 1 ≤ n + 1) :
    Reads (typeAtom (deeper n)) (wrap false (printedWords ty)) (fun _ => True)
      (fun t => t = ty) := by
  obtain ⟨m, rfl⟩ : ∃ m, n = m + 1 := ⟨n - 1, by
    have hpos := printedNesting_pos ty
    omega⟩
  rw [typeAtom, deeper_succ]
  refine reads_peekKind_bind ?_
  exact reads_between (h m (by omega)) (by simp [endsType])

/-- The operand of `ref` or `array of`, with any `ref` after it. -/
lemma reads_compound (k : Nat) (htext : TextReads ty)
    (hoperand : ty.isFunc = false → OperandReads ty)
    (hn : (if isCompound ty then printedNesting ty + 1 else printedNesting ty) ≤ n + 1) :
    Reads (typeOperand (deeper n))
      (wrap (!isCompound ty) (printedWords ty) ++ List.replicate k (terminal .kwRef))
      (fun k => k ≠ some .kwRef) (fun t => t = addRefs k ty) := by
  cases hcompound : isCompound ty with
  | true =>
    rw [if_pos hcompound] at hn
    exact reads_typeOperand_refs k (htext.parens hn)
  | false =>
    rw [if_neg (by simp [hcompound])] at hn
    simp only [isCompound, Bool.or_eq_false_iff] at hcompound
    exact hoperand hcompound.1 n k (fun harray => by simp [harray] at hcompound) hn

lemma operandReads_word (hatom : tyIsAtom ty = true) (hw : tyWritable ty)
    (hwords : printedWords ty = tyWords ty) : OperandReads ty := by
  intro n k _ _
  rw [hwords]
  exact reads_typeOperand_refs k (reads_typeAtom_word hatom hw)

lemma operandReads_array {element : Ty} {dims : Nat} (hdims : 0 < dims)
    (htext : TextReads element) (hoperand : element.isFunc = false → OperandReads element) :
    OperandReads (.array element dims) := by
  intro n k hk hn
  obtain rfl := hk rfl
  rw [List.replicate_zero, List.append_nil]
  refine reads_typeOperand_of_atom ?_
  obtain ⟨m, rfl⟩ : ∃ m, n = m + 1 := ⟨n - 1, by
    rw [printedNesting] at hn
    have hpos := printedNesting_pos element
    split at hn <;> omega⟩
  have harray : Reads (arrayType (deeper m)) (printedWords (.array element dims))
      (fun k => k ≠ some .kwRef) (fun t => t = .array element dims) := by
    unfold arrayType
    rw [printedWords]
    refine reads_expect_bind fun _ _ => ?_
    refine reads_bind (reads_dimensions hdims) (fun count hcount => ?_) (fun _ _ => rfl)
    refine reads_expect_bind fun _ _ => ?_
    have helement := reads_compound 0 htext hoperand (n := m) (by
      rw [printedNesting] at hn
      omega)
    rw [List.replicate_zero, List.append_nil] at helement
    refine reads_bind_last helement (fun t ht => reads_pure ?_)
    rw [hcount, ht]
    rfl
  rw [typeAtom, deeper_succ]
  exact reads_peekKind_bind harray

lemma operandReads_ref {inner : Ty} (htext : TextReads inner)
    (hoperand : inner.isFunc = false → OperandReads inner) : OperandReads (.ref inner) := by
  intro n k _ hn
  have hinner := reads_compound (k + 1) htext hoperand hn
  rw [printedWords, List.append_assoc]
  exact hinner

lemma textReads_func {source target : Ty} (hsource : TextReads source)
    (hoperand : source.isFunc = false → OperandReads source) (htarget : TextReads target) :
    TextReads (.func source target) := by
  intro n hn
  rw [printedNesting, Nat.max_le] at hn
  have hleft : Reads (typeOperand (deeper n)) (wrap (!source.isFunc) (printedWords source))
      (fun k => k ≠ some .kwRef) (fun t => t = source) := by
    cases hfunc : source.isFunc with
    | true =>
      rw [if_pos hfunc] at hn
      refine reads_typeOperand_of_atom ?_
      exact (hsource.parens hn.1).mono (fun _ _ => trivial) fun _ ht => ht
    | false =>
      rw [if_neg (by simp [hfunc])] at hn
      have hread := hoperand hfunc n 0 (fun _ => rfl) hn.1
      rw [List.replicate_zero, List.append_nil] at hread
      exact hread
  obtain ⟨m, rfl⟩ : ∃ m, n = m + 1 := ⟨n - 1, by
    have hpos := printedNesting_pos target
    omega⟩
  have hright : Reads (deeper (m + 1)).ty (printedWords target) endsType
      (fun t => t = target) := by
    rw [deeper_succ]
    exact htarget m (by omega)
  unfold arrowType
  rw [printedWords]
  refine reads_bind hleft (fun t ht => ?_) (fun _ _ => by simp [firstKind])
  refine reads_isAt_bind (reads_expect_bind fun _ _ => ?_)
  refine reads_bind_last hright (fun t' ht' => reads_pure ?_)
  rw [ht, ht']

lemma OperandReads.both (h : OperandReads ty) :
    TextReads ty ∧ (ty.isFunc = false → OperandReads ty) :=
  ⟨h.text, fun _ => h⟩

/-- Every type that can be written is read back from the words of its text. -/
lemma textReads_of_writable (hw : tyWritable ty) :
    TextReads ty ∧ (ty.isFunc = false → OperandReads ty) := by
  induction ty with
  | array element dims ih =>
    obtain ⟨htext, hoperand⟩ := ih hw.2
    exact (operandReads_array hw.1 htext hoperand).both
  | func source target ihs iht =>
    obtain ⟨hsource, hoperand⟩ := ihs hw.1
    exact ⟨textReads_func hsource hoperand (iht hw.2).1, fun hfunc => by cases hfunc⟩
  | ref inner ih =>
    obtain ⟨htext, hoperand⟩ := ih hw
    exact (operandReads_ref htext hoperand).both
  | _ => exact (operandReads_word rfl hw rfl).both

end Reading

/-- Every keyword and symbol is a lexeme as a whole. -/
lemma isLexeme_spelling {kind : TokenKind} {text : String} (h : kind.text = some text) :
    IsLexeme kind text.toList := by
  have hall : (TokenKind.all.all fun kind => kind.text.all fun text =>
      longest? text.toList == some (kind, text.toList)) = true := by decide +kernel
  have hkind := List.all_eq_true.mp hall kind (TokenKind.mem_all kind)
  rw [h] at hkind
  exact eq_of_beq hkind

lemma cuts_keyword (kind : TokenKind) {text : String} (h : kind.text = some text)
    (hname : (text.toList.head?.any Char.isLower && text.toList.all isNameChar) = true) :
    Cuts text.toList [terminal kind] endsName := by
  have hlexeme := isLexeme_spelling h
  have hword : terminal kind = (kind, String.ofList text.toList) := by
    rw [String.ofList_toList, terminal, h]
    rfl
  have hchar : kind ≠ .charLiteral := by
    rintro rfl
    cases h
  rw [hword]
  cases htext : text.toList with
  | nil =>
    rw [htext] at hname
    cases hname
  | cons c tail =>
    rw [htext] at hname hlexeme
    simp only [List.head?_cons, Option.any_some, List.all_cons, Bool.and_eq_true,
      List.all_eq_true] at hname
    exact cuts_name hname.1 hname.2.2 hchar hlexeme

/-- What follows a symbol makes neither another spelling nor a comment of it. -/
def endsSymbol (text : List Char) (k : Option Char) : Prop :=
  ∀ c ∈ k, c ∉ extensions text ∧ startsComment (text ++ [c]) = false

lemma startsComment_cons_cons (c d : Char) (cs cs' : List Char) :
    startsComment (c :: d :: cs) = startsComment (c :: d :: cs') := by
  unfold startsComment
  split <;> split <;> simp_all

lemma cuts_spelling (kind : TokenKind) {c : Char} {tail : List Char}
    (h : kind.text = some (String.ofList (c :: tail)))
    (hc : (!Token.isBlank c && !c.isAlpha && !startsLiteral c) = true)
    (hstart : startsComment (c :: tail) = false) :
    Cuts (c :: tail) [terminal kind] (endsSymbol (c :: tail)) := by
  have hlexeme := isLexeme_spelling h
  have hchar : kind ≠ .charLiteral := by
    rintro rfl
    cases h
  rw [String.toList_ofList] at hlexeme
  simp only [Bool.and_eq_true, Bool.not_eq_true'] at hc
  rw [terminal, h]
  refine cuts_symbol hc.1.1 hc.1.2 hc.2 hchar hlexeme (fun rest hrest => ?_)
    fun _ hk d hd => (hk d hd).1
  cases rest with
  | nil =>
    rw [List.append_nil]
    exact hstart
  | cons d rest =>
    have hpair := (hrest d rfl).2
    cases tail with
    | nil => exact (startsComment_cons_cons c d _ _).trans hpair
    | cons t tail => exact (startsComment_cons_cons c t _ _).trans hpair

lemma endsSymbol_some {text : List Char} {c : Char}
    (h : (!(extensions text).contains c && !startsComment (text ++ [c])) = true) :
    endsSymbol text (some c) := by
  intro d hd
  cases hd
  simpa using h

/-- A symbol that nothing extends. -/
lemma cuts_alone (kind : TokenKind) {c : Char} (h : kind.text = some (String.ofList [c]))
    (hc : (!Token.isBlank c && !c.isAlpha && !startsLiteral c) = true)
    (hextensions : extensions [c] = []) (hcomment : c ≠ '-' ∧ c ≠ '(') :
    Cuts [c] [terminal kind] fun _ => True := by
  refine (cuts_spelling kind h hc ?_).mono fun k _ d _ => ⟨?_, ?_⟩
  · exact startsComment_of_ne hcomment.1 hcomment.2
  · rw [hextensions]
    exact List.not_mem_nil
  · exact startsComment_of_ne hcomment.1 hcomment.2

lemma endsName_some {c : Char} (h : isNameChar c = false) : endsName (some c) := by
  intro d hd
  cases hd
  exact h

lemma cuts_parenthesized {ty : Ty} (needed : Bool)
    (h : Cuts ty.text.toList (printedWords ty) endsName)
    (hfirst : ty.text.toList.head? ≠ some '*') :
    Cuts (Ty.parenthesized needed ty.text).toList (wrap (!needed) (printedWords ty)) endsName := by
  cases needed with
  | false => exact h
  | true =>
    have hopen : Cuts ['('] [terminal .lParen] (endsSymbol ['(']) :=
      cuts_spelling .lParen rfl (by decide) rfl
    have hclose : Cuts [')'] [terminal .rParen] fun _ => True :=
      cuts_alone .rParen rfl (by decide) (by decide +kernel) (by decide)
    have htext : (Ty.parenthesized true ty.text).toList = ['('] ++ (ty.text.toList ++ [')']) := by
      simp [Ty.parenthesized]
    rw [htext]
    refine hopen.append ((h.append hclose fun k _ => endsName_some (by decide)).mono
      fun _ _ => trivial) fun k _ c hc => ⟨?_, ?_⟩
    · have hnone : extensions ['('] = [] := by decide +kernel
      rw [hnone]
      exact List.not_mem_nil
    · have hstar : c ≠ '*' := by
        rintro rfl
        rw [List.head?_append] at hc
        cases htail : ty.text.toList.head? with
        | none =>
          rw [htail] at hc
          exact absurd (Option.some.inj hc) (by decide)
        | some d =>
          rw [htail] at hc
          exact hfirst (htail.trans hc)
      unfold startsComment
      split
      next heq => exact absurd (List.cons.inj heq).1 (by decide)
      next heq => exact absurd (List.cons.inj (List.cons.inj heq).2).1 hstar
      next => rfl

/-- The stars between the brackets of an array. -/
lemma cuts_stars (k : Nat) :
    Cuts (", ".intercalate (List.replicate (k + 1) "*")).toList
      (separatedWords (terminal .comma) ((List.replicate (k + 1) ()).map fun _ =>
        [terminal .times])) (fun c => c = some ']') := by
  have hstar : Cuts ['*'] [terminal .times] (endsSymbol ['*']) :=
    cuts_spelling .times rfl (by decide) rfl
  have hcomma : Cuts [','] [terminal .comma] fun _ => True :=
    cuts_alone .comma rfl (by decide) (by decide +kernel) (by decide)
  induction k with
  | zero =>
    refine hstar.mono ?_
    rintro _ rfl
    exact endsSymbol_some (by decide +kernel)
  | succ k ih =>
    have htext : (", ".intercalate (List.replicate (k + 2) "*")).toList =
        ['*'] ++ ([','] ++ ([' '] ++ (", ".intercalate (List.replicate (k + 1) "*")).toList)) := by
      rw [String.toList_intercalate, String.toList_intercalate]
      exact List.intercalate_cons_cons
    rw [htext]
    refine hstar.append (hcomma.append (cuts_blank.append ih fun _ _ => trivial) fun _ _ => trivial)
      fun _ _ => endsSymbol_some (by decide +kernel)

/-- The words `array of` with the dimensions between them. -/
lemma cuts_arrayWord {dims : Nat} (hdims : 0 < dims) :
    Cuts (Ty.arrayWord dims).toList
      (terminal .kwArray :: (dimensionWords dims ++ [terminal .kwOf])) fun _ => True := by
  have harray : Cuts "array".toList [terminal .kwArray] endsName :=
    cuts_keyword .kwArray rfl (by decide)
  have hof : Cuts ("of".toList ++ [' ']) [terminal .kwOf] fun _ => True :=
    (cuts_keyword .kwOf rfl (by decide)).append cuts_blank fun _ _ => endsName_some (by decide)
  by_cases hone : dims = 1
  · subst hone
    exact harray.append (cuts_blank.append hof fun _ _ => trivial)
      fun _ _ => endsName_some (by decide)
  · obtain ⟨k, rfl⟩ : ∃ k, dims = k + 1 := ⟨dims - 1, by omega⟩
    have hopen : Cuts ['['] [terminal .lBracket] fun _ => True :=
      cuts_alone .lBracket rfl (by decide) (by decide +kernel) (by decide)
    have hclose : Cuts [']'] [terminal .rBracket] fun _ => True :=
      cuts_alone .rBracket rfl (by decide) (by decide +kernel) (by decide)
    have htext : (Ty.arrayWord (k + 1)).toList = "array".toList ++ ([' '] ++ (['['] ++
        ((", ".intercalate (List.replicate (k + 1) "*")).toList ++ ([']'] ++
          ([' '] ++ ("of".toList ++ [' '])))))) := by
      rw [Ty.arrayWord, if_neg hone]
      simp
    rw [htext, dimensionWords, if_neg hone]
    have hrest := (cuts_stars k).append (hclose.append (cuts_blank.append hof fun _ _ => trivial)
      fun _ _ => trivial) fun _ _ => rfl
    have hwords := harray.append (cuts_blank.append (hopen.append hrest fun _ _ => trivial)
      fun _ _ => trivial) fun _ _ => endsName_some (by decide)
    simpa using hwords

/-- The user types of a type. -/
def userNames : Ty → List String
  | .array element _ => userNames element
  | .func source target => userNames source ++ userNames target
  | .ref inner => userNames inner
  | .user name => [name]
  | _ => []

lemma head?_parenthesized {needed : Bool} {text : String} (h : text.toList.head? ≠ some '*') :
    (Ty.parenthesized needed text).toList.head? ≠ some '*' := by
  cases needed with
  | false => exact h
  | true => simp [Ty.parenthesized]

lemma head?_before_blank {text rest : List Char} (h : text.head? ≠ some '*') :
    (text ++ ([' '] ++ rest)).head? ≠ some '*' := by
  cases text with
  | nil => simp
  | cons c text => exact h

lemma cuts_genid {name : String} (h : IsLexeme .genid name.toList) :
    Cuts name.toList [(.genid, name)] endsName ∧ name.toList.head? ≠ some '*' := by
  obtain ⟨c, tail, htext, hfirst, htail⟩ := h.name (.inl rfl)
  have hlower : c.isLower = true := hfirst
  have hcuts := cuts_name hlower htail (by decide) (htext ▸ h)
  rw [← htext, String.ofList_toList] at hcuts
  refine ⟨hcuts, ?_⟩
  rw [htext]
  rintro hstar
  rw [Option.some.inj hstar] at hlower
  exact absurd hlower (by decide)

/-- The text of a type is cut into its words, and opens no comment after a parenthesis. -/
lemma cuts_text {ty : Ty} (hw : tyWritable ty)
    (hnames : ∀ name ∈ userNames ty, IsLexeme .genid name.toList) :
    Cuts ty.text.toList (printedWords ty) endsName ∧ ty.text.toList.head? ≠ some '*' := by
  induction ty with
  | bool => exact ⟨cuts_keyword .kwBool rfl (by decide), by decide⟩
  | char => exact ⟨cuts_keyword .kwChar rfl (by decide), by decide⟩
  | float => exact ⟨cuts_keyword .kwFloat rfl (by decide), by decide⟩
  | int => exact ⟨cuts_keyword .kwInt rfl (by decide), by decide⟩
  | unit => exact ⟨cuts_keyword .kwUnit rfl (by decide), by decide⟩
  | string =>
    have hlexeme : IsLexeme .genid "string".toList := by
      unfold IsLexeme
      decide +kernel
    exact cuts_genid hlexeme
  | user name => exact cuts_genid (hnames name List.mem_cons_self)
  | array element dims ih =>
    obtain ⟨helement, hfirst⟩ := ih hw.2 hnames
    have htext : (Ty.array element dims).text.toList = (Ty.arrayWord dims).toList ++
        (Ty.parenthesized (isCompound element) element.text).toList := String.toList_append
    rw [htext]
    refine ⟨?_, ?_⟩
    · have hwords := (cuts_arrayWord hw.1).append (cuts_parenthesized (isCompound element) helement
        hfirst) fun _ _ => trivial
      simpa using hwords
    · unfold Ty.arrayWord
      split <;> simp
  | func source target ihs iht =>
    obtain ⟨hsource, hfirst⟩ := ihs hw.1 fun name h => hnames name (List.mem_append_left _ h)
    obtain ⟨htarget, -⟩ := iht hw.2 fun name h => hnames name (List.mem_append_right _ h)
    have harrow : Cuts ['-', '>'] [terminal .arrow] (endsSymbol ['-', '>']) :=
      cuts_spelling .arrow rfl (by decide) rfl
    have htext : (Ty.func source target).text.toList =
        (Ty.parenthesized source.isFunc source.text).toList ++
          ([' '] ++ (['-', '>'] ++ ([' '] ++ target.text.toList))) := by
      simp [Ty.text]
    rw [htext]
    refine ⟨?_, ?_⟩
    · have hrest := cuts_blank.append (harrow.append (cuts_blank.append htarget fun _ _ => trivial)
        fun _ _ => endsSymbol_some (by decide +kernel)) fun _ _ => trivial
      exact (cuts_parenthesized source.isFunc hsource hfirst).append hrest
        fun _ _ => endsName_some (by decide)
    · exact head?_before_blank (head?_parenthesized hfirst)
  | ref inner ih =>
    obtain ⟨hinner, hfirst⟩ := ih hw hnames
    have htext : (Ty.ref inner).text.toList =
        (Ty.parenthesized (isCompound inner) inner.text).toList ++ ([' '] ++ "ref".toList) := by
      simp [Ty.text, isCompound]
    rw [htext]
    refine ⟨?_, ?_⟩
    · have hrest := cuts_blank.append (cuts_keyword .kwRef rfl (by decide)) fun _ _ => trivial
      exact (cuts_parenthesized (isCompound inner) hinner hfirst).append hrest
        fun _ _ => endsName_some (by decide)
    · exact head?_before_blank (head?_parenthesized hfirst)

/-- The name is cut as one token, a name that starts with a small letter. -/
def LexesAsName (name : String) : Prop :=
  ∃ token, Token.lex name = .ok [token] ∧ token.kind = .genid ∧ token.value = name

/-- The text of a type is cut into tokens, and these are read as the type to the last one. -/
theorem type_text_reads_back (ty : Ty) (hw : tyWritable ty)
    (hnames : ∀ name ∈ userNames ty, LexesAsName name)
    (hlevels : printedNesting ty ≤ maxNesting) :
    ∃ tokens, Token.lex ty.text = .ok tokens ∧
      ∃ s, outermost.ty tokens.toArray .initial = (.ok ty, s) ∧ s.index = tokens.length := by
  have hlexemes : ∀ name ∈ userNames ty, IsLexeme .genid name.toList := by
    intro name hname
    obtain ⟨token, hlex, hkind, hvalue⟩ := hnames name hname
    have hlexeme := isLexeme_of_lex hlex List.mem_cons_self (.inl hkind)
    rwa [hkind, hvalue] at hlexeme
  obtain ⟨tokens, hlex, hwords⟩ :=
    (cuts_text hw hlexemes).1.lex fun _ h => absurd h (Option.not_mem_none _)
  refine ⟨tokens, hlex, ?_⟩
  have hahead : ahead tokens.toArray .initial = printedWords ty ++ [] := by
    rw [List.append_nil, ← hwords]
    rfl
  have hreads : Reads outermost.ty (printedWords ty) endsType (fun t => t = ty) := by
    have houtermost : outermost = levelAbove (deeper 255) := deeper_succ 255
    rw [houtermost]
    exact (textReads_of_writable hw).1 255 hlevels
  obtain ⟨t, s, hrun, rfl, hrest, -⟩ := hreads _ _ [] hahead (by simp [endsType, firstKind])
  refine ⟨s, hrun, Nat.le_antisymm ?_ ?_⟩
  · have hscans : DeeperScans anywhere outermost := deeper_scans maxNesting
    exact hscans.ty.le_size (Nat.zero_le _) hrun
  · have hlength := length_ahead tokens.toArray s
    rw [hrest, List.length_nil] at hlength
    simp only [List.size_toArray] at hlength
    omega

/-- The type is `(array [*, *] of a' -> int ref ref) ref -> array of (array of string) -> unit`. -/
def nestedType : Ty :=
  .func (.ref (.func (.array (.user "a'") 2) (.ref (.ref .int))))
    (.func (.array (.array .string 1) 1) .unit)

theorem nestedType_text_reads_back :
    nestedType.text =
      "(array [*, *] of a' -> int ref ref) ref -> array of (array of string) -> unit" ∧
    ∃ tokens, Token.lex nestedType.text = .ok tokens ∧
      ∃ s, outermost.ty tokens.toArray .initial = (.ok nestedType, s) ∧
        s.index = tokens.length := by
  refine ⟨by decide +kernel, type_text_reads_back nestedType ?_ ?_ (by decide +kernel)⟩
  · have hname : Ty.builtin? "a'" = none := by decide +kernel
    exact ⟨⟨⟨by decide, hname⟩, trivial⟩, ⟨by decide, by decide, trivial⟩, trivial⟩
  · intro name hname
    obtain rfl : name = "a'" := List.mem_singleton.mp hname
    exact ⟨Token.ofLexeme ⟨0, 0⟩ .genid ['a', '\''], by decide +kernel, rfl, rfl⟩

end Llama.Proofs
