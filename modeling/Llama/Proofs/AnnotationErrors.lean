import Llama.Proofs.SyntaxErrors
import Llama.Proofs.TreeLayout
import Llama.Proofs.TypeShift

/-!
# Where malformed types are reported

A definition takes types after colons in five places. If no type can be read after the colon, the
error that is reported for a parameter, for the result of a function and for a constant is the
furthest one, inside what was to be a type. For a mutable variable or array it is not: the type may
be left out, nothing has to follow it, and so the definition ends before the colon. The furthest
error is forgotten with it, and what is reported is that no definition begins with a colon.
-/

namespace Llama.Proofs

open Llama.Parser Llama.Grammar

variable {follow : Option TokenKind → Prop} {name colon : String}

/-- The places of a definition that take a type after a colon. -/
inductive TypePlace where
  | parameter
  | result
  | constant
  | mutableVar
  | mutableArray

/-- The type is the last part of the definition and may be left out. -/
def TypePlace.isLast : TypePlace → Bool
  | .parameter | .result | .constant => false
  | .mutableVar | .mutableArray => true

/-- The words of a definition up to the colon before a type. -/
inductive HeadUpTo : TypePlace → List Word → Prop
  | parameter {name opening param colon : String} {params : List (List Word)}
      (hparams : ∀ ws ∈ params, Reads (Grammar.param outermost) ws (fun _ => True) fun _ => True) :
      HeadUpTo .parameter ((.genid, name) :: (params.flatten ++
        [(.lParen, opening), (.genid, param), (.colon, colon)]))
  | result {name colon : String} {params : List (List Word)} (hne : params ≠ [])
      (hparams : ∀ ws ∈ params, Reads (Grammar.param outermost) ws (fun _ => True) fun _ => True) :
      HeadUpTo .result ((.genid, name) :: (params.flatten ++ [(.colon, colon)]))
  | constant {name colon : String} : HeadUpTo .constant [(.genid, name), (.colon, colon)]
  | mutableVar {mark name colon : String} :
      HeadUpTo .mutableVar [(.kwMutable, mark), (.genid, name), (.colon, colon)]
  | mutableArray {mark name opening closing colon : String} {dims : List Word}
      (hdims : Reads (exprList outermost) dims (· = some .rBracket) fun _ => True) :
      HeadUpTo .mutableArray ((.kwMutable, mark) :: (.genid, name) ::
        ((.lBracket, opening) :: dims ++ [(.rBracket, closing)] ++ [(.colon, colon)]))

/-- The definitions of a group up to the colon before a type. -/
inductive DefsUpTo (place : TypePlace) : List Word → Prop
  | last {ws : List Word} (h : HeadUpTo place ws) : DefsUpTo place ws
  | next {ds ws : List Word} {mark : String}
      (hds : Reads (letDef outermost) ds (· = some .kwAnd) fun _ => True) (h : DefsUpTo place ws) :
      DefsUpTo place (ds ++ (.kwAnd, mark) :: ws)

/-- The words of a let group up to the colon before a type. -/
inductive GroupUpTo (place : TypePlace) : List Word → Prop
  | plain {mark : String} {ws : List Word} (h : DefsUpTo place ws) :
      GroupUpTo place ((.kwLet, mark) :: ws)
  | recursive {mark mark' : String} {ws : List Word} (h : DefsUpTo place ws) :
      GroupUpTo place ((.kwLet, mark) :: (.kwRec, mark') :: ws)

/-- If no type can be read from the tokens, the one of them at which the furthest error is. -/
def typeError? (ts : List Token) : Option Nat :=
  match outermost.ty ts.toArray ParserState.initial with
  | (.ok _, _) => none
  | (.error _, s) => s.furthest.map SyntaxError.index

/-- Where the error is reported that follows a number of tokens, the last of them a colon. -/
def TypePlace.reportedAt (place : TypePlace) (n k : Nat) : Nat :=
  if place.isLast then n - 1 else n + k

variable {α β : Type} {before ts : List Token} {ws us : List Word} {s s' : ParserState}

/-- The given words are left before the tokens `ts`, and no error is kept beyond the next word. -/
structure Left (before ts : List Token) (ws : List Word) (s : ParserState) : Prop where
  ahead : ahead (before ++ ts).toArray s = ws ++ ts.map word
  behind : Behind s
  le : s.index ≤ (before ++ ts).length

lemma length_left (h : Left before ts ws s) :
    (ahead (before ++ ts).toArray s).length = ws.length + ts.length := by
  rw [h.ahead, List.length_append, List.length_map]

lemma Left.index_add (h : Left before ts ws s) : s.index + ws.length = before.length := by
  have hlength := length_ahead (before ++ ts).toArray s
  have hle := h.le
  rw [length_left h, List.size_toArray] at hlength
  rw [List.length_append] at hlength hle
  omega

/-- A parser that reads the next words leaves the others. -/
lemma Left.take {p : Parser α} {post : α → Prop} {loose : Bool} {P : List Token → α → Prop}
    (h : Left before ts (us ++ ws) s) (hreads : Reads p us follow post)
    (htakes : Takes loose [] p P) (hfollow : follow (firstKind (ws ++ ts.map word) none))
    (hcolon : loose = true → firstKind (ws ++ ts.map word) none ≠ some .colon) :
    ∃ a s', p (before ++ ts).toArray s = (.ok a, s') ∧ post a ∧ Left before ts ws s' := by
  have hahead := h.ahead
  rw [List.append_assoc] at hahead
  obtain ⟨a, s', hrun, ha, hahead', -⟩ := hreads _ _ _ hahead hfollow
  obtain ⟨taken, htaken, hkept, -⟩ := htakes _ _ _ _ _ _ (since_nil _ s) h.behind rfl hrun
  refine ⟨a, s', hrun, ha, hahead', ?_, ?_⟩
  · rcases hkept with hbehind | ⟨hloose, hat⟩
    · exact hbehind
    · rw [AtColon, nextKind_eq, hahead'] at hat
      exact absurd hat (hcolon hloose)
  · have hlength := congrArg List.length htaken.ahead
    have hindex := htaken.index
    have hle := h.le
    rw [List.length_append, List.length_drop, List.length_drop] at hlength
    dsimp only at hlength
    omega

/-- The parser succeeds before the token at the given place, or it fails and the furthest error is
at that place. -/
def Misses (isLast : Bool) (place : Nat) : Except SyntaxError α × ParserState → Prop
  | (.ok _, s) => isLast = true ∧ s.index = place
  | (.error _, s) => isLast = false ∧ s.furthest.map SyntaxError.index = some place

/-- The same for every state in which the given words are left. -/
def MissesOn (before ts : List Token) (isLast : Bool) (place : Nat) (p : Parser α)
    (ws : List Word) : Prop :=
  ∀ s, Left before ts ws s → Misses isLast place (p (before ++ ts).toArray s)

variable {p : Parser α} {f : α → Parser β} {isLast : Bool} {place : Nat} {tokens : Array Token}

/-- What comes after it takes no token where it succeeds. -/
lemma Misses.bind (h : Misses isLast place (p tokens s))
    (hf : isLast = true → ∀ a s, s.index = place →
      ∃ b s', f a tokens s = (.ok b, s') ∧ s'.index = place) :
    Misses isLast place ((p >>= f) tokens s) := by
  cases hrun : p tokens s with
  | mk r s₁ =>
    rw [hrun] at h
    cases r with
    | ok a =>
      obtain ⟨hlast, hindex⟩ := h
      obtain ⟨b, s', hrest, hindex'⟩ := hf hlast a s₁ hindex
      rw [bind_run_ok hrun, hrest]
      exact ⟨hlast, hindex'⟩
    | error e =>
      rw [bind_run_error hrun]
      exact h

lemma Misses.bind_error (h : Misses false place (p tokens s)) :
    Misses false place ((p >>= f) tokens s) :=
  h.bind fun hlast => absurd hlast Bool.false_ne_true

lemma missesOn_take {post : α → Prop} {P : List Token → α → Prop} (hreads : Reads p us follow post)
    (htakes : Takes false [] p P) (hfollow : follow (firstKind (ws ++ ts.map word) none))
    (hf : ∀ a, MissesOn before ts isLast place (f a) ws) :
    MissesOn before ts isLast place (p >>= f) (us ++ ws) := by
  intro s h
  obtain ⟨a, s', hrun, -, h'⟩ :=
    h.take hreads htakes hfollow fun hloose => absurd hloose Bool.false_ne_true
  rw [bind_run_ok hrun]
  exact hf a s' h'

lemma missesOn_expect {kind : TokenKind} {text : String} {f : Token → Parser β}
    (hf : ∀ token, MissesOn before ts isLast place (f token) ws) :
    MissesOn before ts isLast place (expect kind >>= f) ((kind, text) :: ws) :=
  missesOn_take (reads_expect kind text) (takesOne_expect kind []) trivial hf

lemma missesOn_genid {f : String × Span → Parser β}
    (hf : ∀ read, MissesOn before ts isLast place (f read) ws) :
    MissesOn before ts isLast place (genid >>= f) ((.genid, name) :: ws) :=
  missesOn_take (reads_genid name) (takesOne_genid []) trivial hf

lemma missesOn_isAt {kind : TokenKind} {f : Bool → Parser β}
    (hf : MissesOn before ts isLast place
      (f (firstKind (ws ++ ts.map word) none == some kind)) ws) :
    MissesOn before ts isLast place (isAt kind >>= f) ws := by
  intro s h
  rw [bind_run_ok (isAt_run _ _ _), h.ahead]
  exact hf s h

section Malformed

variable {k : Nat} (hfails : typeError? ts = some k)
include hfails

lemma missesOn_ty : MissesOn before ts false (before.length + k) outermost.ty [] := by
  intro s h
  have hindex : s.index = before.length := h.index_add
  unfold typeError? at hfails
  split at hfails
  next => cases hfails
  next e s₁ hrun =>
    obtain ⟨kept, hfurthest, rfl⟩ := Option.map_eq_some_iff.mp hfails
    obtain ⟨e', s', hrun', hfurthest'⟩ :=
      outermost_ty_fails hrun hfurthest hindex fun e he => hindex ▸ h.behind e he
    rw [hrun']
    exact ⟨rfl, hfurthest'⟩

/-- After a type that cannot be read, the colon is next and the furthest error is kept. -/
lemma annotation_run (h : Left before ts [(.colon, colon)] s) :
    ∃ s', optionalType outermost (before ++ ts).toArray s = (.ok none, s') ∧ s'.index = s.index ∧
      s'.furthest.map SyntaxError.index = some (before.length + k) := by
  have hmisses : MissesOn before ts false (before.length + k)
      (do let _ ← expect .colon; outermost.ty) [(.colon, colon)] :=
    missesOn_expect fun _ => missesOn_ty hfails
  cases hrun : (do let _ ← expect .colon; outermost.ty : Parser Ty) (before ++ ts).toArray s with
  | mk r s₁ =>
    have hmiss := hmisses s h
    rw [hrun] at hmiss
    cases r with
    | ok ty => cases hmiss.1
    | error e => exact ⟨{ s₁ with index := s.index }, optional_run_error hrun, rfl, hmiss.2⟩

/-- Where `=` has to follow, the definition fails, and the furthest error is still that of the
type. -/
lemma missesOn_annotation_equals {f : Option Ty → Token → Parser β} :
    MissesOn before ts false (before.length + k)
      (optionalType outermost >>= fun ty => expect .equals >>= f ty) [(.colon, colon)] := by
  intro s h
  obtain ⟨s', hrun, hindex, hkept⟩ := annotation_run hfails h
  have hnext : (before ++ ts).toArray[s'.index]?.map Token.kind ≠ some .equals := by
    rw [hindex, nextKind_eq, h.ahead]
    exact fun heq => TokenKind.noConfusion (Option.some.inj heq)
  obtain ⟨e, he, herror⟩ := expect_run_error hnext
  rw [bind_run_ok hrun, bind_run_error herror]
  refine ⟨rfl, ?_⟩
  -- the missing `=` is an error at the colon, before the one that is kept
  have hplace := h.index_add
  rw [Option.map_some, index_furthest, hkept, Option.getD_some, he, hindex]
  exact congrArg some (Nat.max_eq_left (by omega))

/-- Where nothing has to follow, the definition ends before the colon. -/
lemma missesOn_annotation_last {start : Span} {make : Option Ty → Site → β} :
    MissesOn before ts true (before.length - 1)
      (optionalType outermost >>= fun ty => newSiteFrom start >>= fun site => pure (make ty site))
      [(.colon, colon)] := by
  intro s h
  obtain ⟨s', hrun, hindex, -⟩ := annotation_run hfails h
  rw [bind_run_ok hrun]
  refine ⟨rfl, ?_⟩
  have hplace : s.index + 1 = before.length := h.index_add
  show s'.index = before.length - 1
  omega

end Malformed

section Items

variable {item : Parser α} {starts : TokenKind → Bool} {n : Nat}

lemma manyUpTo_run_starts (hstarts : (firstKind (ahead tokens s) none).any starts = true) :
    manyUpTo starts item (n + 1) tokens s =
      (do let first ← item; let rest ← manyUpTo starts item n; pure (first :: rest) :
        Parser (List α)) tokens s := by
  rw [manyUpTo, bind_run_ok (startsWith_run _ _ _), hstarts]
  rfl

lemma misses_manyUpTo_last (hstarts : (firstKind (ahead tokens s) none).any starts = true)
    (hitem : Misses isLast place (item tokens s))
    (hstop : isLast = true → (tokens[place]?.map Token.kind).any starts = false) :
    Misses isLast place (manyUpTo starts item (n + 1) tokens s) := by
  rw [manyUpTo_run_starts hstarts]
  refine hitem.bind fun hlast a s' hindex => ?_
  have hrun : manyUpTo starts item n tokens s' = (.ok [], s') :=
    manyUpTo_stop (hindex ▸ hstop hlast) n
  exact ⟨[a], s', bind_run_ok hrun, hindex⟩

lemma misses_manyUpTo_next {a : α}
    (hstarts : (firstKind (ahead tokens s) none).any starts = true)
    (hitem : item tokens s = (.ok a, s'))
    (hrest : Misses isLast place (manyUpTo starts item n tokens s')) :
    Misses isLast place (manyUpTo starts item (n + 1) tokens s) := by
  rw [manyUpTo_run_starts hstarts, bind_run_ok hitem]
  exact hrest.bind fun _ as s₁ hindex => ⟨a :: as, s₁, rfl, hindex⟩

end Items

/-- A token for a word. -/
def tokenOf (w : Word) : Token := ⟨w.1, w.2, 1, 1, Span.origin⟩

lemma map_word_tokenOf (ws : List Word) : (ws.map tokenOf).map word = ws := by
  rw [List.map_map]
  exact List.map_id ws

lemma TakesOne.next {accepts : TokenKind → Prop} {result : Token → α} {a : α}
    (hp : TakesOne p accepts result) (hbehind : Behind s) (hrun : p tokens s = (.ok a, s')) :
    ∃ token, tokens[s.index]? = some token ∧ accepts token.kind := by
  obtain ⟨taken, htaken, -, token, haccepts, rfl, -⟩ :=
    hp [] _ _ _ _ _ _ (since_nil _ s) hbehind rfl hrun
  refine ⟨token, ?_, haccepts⟩
  rw [← Array.getElem?_toList, ← List.head?_drop, htaken.ahead]
  rfl

/-- If a parser succeeds only before certain tokens, the words that it reads start with one. -/
lemma exists_first_of_reads {starts : TokenKind → Bool} {post : α → Prop} (rest : List Word)
    (hstarts : ∀ tokens s s' a, Behind s → p tokens s = (.ok a, s') →
      (tokens[s.index]?.map Token.kind).any starts = true)
    (hreads : Reads p ws follow post) (hfollow : follow (firstKind rest none))
    (hrest : (firstKind rest none).any starts = false) :
    ∃ w vs, ws = w :: vs ∧ starts w.1 = true := by
  have hahead : ahead ((ws ++ rest).map tokenOf).toArray ParserState.initial = ws ++ rest :=
    map_word_tokenOf _
  obtain ⟨a, s', hrun, -⟩ := hreads _ _ _ hahead hfollow
  have hfirst := hstarts _ _ _ _ (behind_of_none rfl) hrun
  rw [nextKind_eq, hahead] at hfirst
  cases ws with
  | nil =>
    rw [List.nil_append, hrest] at hfirst
    cases hfirst
  | cons w vs => exact ⟨w, vs, rfl, hfirst⟩

lemma param_starts {d : Deeper} {a : Param} (hbehind : Behind s)
    (hrun : param d tokens s = (.ok a, s')) :
    (tokens[s.index]?.map Token.kind).any startsParam = true := by
  rw [param, bind_run_ok (isAt_run _ _ _), ← nextKind_eq] at hrun
  split at hrun
  next hat =>
    rw [eq_of_beq hat]
    rfl
  next =>
    obtain ⟨_, _, hopening, -⟩ := exists_of_bind_run hrun
    obtain ⟨token, hget, hkind⟩ :=
      (takesOne_label "parameter" (takesOne_expect .lParen)).next hbehind hopening
    rw [hget, Option.map_some, hkind]
    rfl

/-- Whether a token can start a definition of a group. -/
def startsLetDef : TokenKind → Bool
  | .genid | .kwMutable => true
  | _ => false

lemma letDef_starts {d : Deeper} {a : Def} (hbehind : Behind s)
    (hrun : letDef d tokens s = (.ok a, s')) :
    (tokens[s.index]?.map Token.kind).any startsLetDef = true := by
  rw [letDef, bind_run_ok (isAt_run _ _ _), ← nextKind_eq] at hrun
  split at hrun
  next hat =>
    rw [eq_of_beq hat]
    rfl
  next =>
    obtain ⟨_, _, hname, -⟩ := exists_of_bind_run hrun
    obtain ⟨token, hget, hkind⟩ := (takesOne_label "definition" takesOne_genid).next hbehind hname
    rw [hget, Option.map_some, hkind]
    rfl

/-- The words of a parameter start as a parameter does. -/
lemma exists_first_of_param
    (h : Reads (param outermost) ws (fun _ => True) fun _ => True) :
    ∃ w vs, ws = w :: vs ∧ startsParam w.1 = true :=
  exists_first_of_reads [] (fun _ _ _ _ => param_starts) h trivial rfl

/-- A group does not start with `rec`. -/
lemma DefsUpTo.first {typePlace : TypePlace} (h : DefsUpTo typePlace ws) :
    ∃ w vs, ws = w :: vs ∧ startsLetDef w.1 = true := by
  cases h with
  | last h => cases h <;> exact ⟨_, _, rfl, rfl⟩
  | next hds h =>
    obtain ⟨w, vs, rfl, hw⟩ := exists_first_of_reads [(.kwAnd, "and")]
      (fun _ _ _ _ => letDef_starts) hds rfl rfl
    exact ⟨w, _, rfl, hw⟩

section Definitions

variable {k : Nat} (hfails : typeError? ts = some k)
include hfails

lemma missesOn_param {opening : String} :
    MissesOn before ts false (before.length + k) (param outermost)
      [(.lParen, opening), (.genid, name), (.colon, colon)] := by
  refine missesOn_isAt ?_
  refine missesOn_take (reads_label (reads_expect .lParen opening))
    (takesOne_label _ (takesOne_expect _) []) trivial fun _ => ?_
  refine missesOn_genid fun _ => missesOn_expect fun _ => ?_
  exact fun s h => (missesOn_ty hfails s h).bind_error

/-- Parameters are read one after the other up to the one whose type cannot be read. -/
lemma missesOn_params {opening : String} {params : List (List Word)}
    (hparams : ∀ ws ∈ params, Reads (param outermost) ws (fun _ => True) fun _ => True) :
    MissesOn before ts false (before.length + k) (many startsParam (param outermost))
      (params.flatten ++ [(.lParen, opening), (.genid, name), (.colon, colon)]) := by
  intro s h
  rw [many, bind_run_ok (remaining_run _ _)]
  -- the bound on the number of parameters stays above the number of words that are left
  have hn := Nat.le_of_eq (length_ahead (before ++ ts).toArray s)
  generalize (before ++ ts).toArray.size - s.index = n at hn
  induction params generalizing n s with
  | nil =>
    have hpos : 0 < n := by
      rw [length_left h, List.flatten_nil, List.nil_append, List.length_cons] at hn
      omega
    obtain ⟨n, rfl⟩ : ∃ m, n = m + 1 := Nat.exists_eq_add_one.mpr hpos
    refine misses_manyUpTo_last ?_ (missesOn_param hfails s h) fun hlast => by cases hlast
    rw [h.ahead]
    rfl
  | cons us params ih =>
    obtain ⟨hus, hothers⟩ := List.forall_mem_cons.mp hparams
    obtain ⟨w, vs, rfl, hw⟩ := exists_first_of_param hus
    have hahead := h.ahead
    rw [List.flatten_cons, List.append_assoc] at h
    obtain ⟨a, s', hrun, -, h'⟩ := h.take hus (lays_param (deeper_lays maxNesting)) trivial
      fun hloose => absurd hloose Bool.false_ne_true
    have hshorter : (ahead (before ++ ts).toArray s').length + 1 ≤ n := by
      rw [length_left h, List.length_append, List.length_cons] at hn
      rw [length_left h']
      omega
    obtain ⟨n, rfl⟩ : ∃ m, n = m + 1 := Nat.exists_eq_add_one.mpr (by omega)
    refine misses_manyUpTo_next ?_ hrun (ih hothers s' h' n (by omega))
    rw [hahead]
    exact hw

/-- After its name and parameters, a definition takes a type and `=`. -/
lemma missesOn_functionDef {params : List (List Word)}
    (hparams : ∀ ws ∈ params, Reads (param outermost) ws (fun _ => True) fun _ => True) :
    MissesOn before ts false (before.length + k) (functionDef outermost)
      ((.genid, name) :: (params.flatten ++ [(.colon, colon)])) := by
  have hmany : Reads (many startsParam (param outermost)) params.flatten (· = some .colon)
      fun as => as.map (fun _ => ()) = params.map fun _ => () := by
    rw [← List.flatMap_id]
    refine reads_many (fun _ => True) params (fun us hus => ?_) (fun us hus => ?_) ?_
    · exact (hparams us hus).mono (fun _ _ => trivial) fun _ _ => rfl
    · obtain ⟨w, vs, rfl, hw⟩ := exists_first_of_param (hparams us hus)
      exact ⟨w, vs, rfl, hw, trivial⟩
    · rintro _ rfl
      exact ⟨trivial, rfl⟩
  refine missesOn_take (reads_label (reads_genid name)) (takesOne_label _ takesOne_genid [])
    trivial fun read => ?_
  exact missesOn_take hmany (lays_many rfl (lays_param (deeper_lays maxNesting))) rfl fun _ =>
    missesOn_annotation_equals hfails

lemma missesOn_letDef {typePlace : TypePlace} (h : HeadUpTo typePlace ws) :
    MissesOn before ts typePlace.isLast (typePlace.reportedAt before.length k) (letDef outermost)
      ws := by
  refine missesOn_isAt ?_
  cases h with
  | parameter hparams =>
    refine missesOn_take (reads_label (reads_genid _)) (takesOne_label _ takesOne_genid []) trivial
      fun read => ?_
    exact fun s h => (missesOn_params hfails hparams s h).bind_error
  | result hne hparams => exact missesOn_functionDef hfails hparams
  | constant =>
    have hnone : ∀ ws ∈ ([] : List (List Word)),
        Reads (param outermost) ws (fun _ => True) fun _ => True :=
      fun _ h => absurd h List.not_mem_nil
    exact missesOn_functionDef hfails hnone
  | mutableVar =>
    refine missesOn_expect fun _ => missesOn_genid fun _ => missesOn_isAt ?_
    exact missesOn_annotation_last hfails
  | @mutableArray _ _ opening closing colon dims hdims =>
    have hbetween : Reads (between .lBracket .rBracket (exprList outermost))
        ((.lBracket, opening) :: (dims ++ [(.rBracket, closing)])) (fun _ => True) fun _ => True :=
      reads_between hdims rfl
    refine missesOn_expect fun _ => missesOn_genid fun _ => missesOn_isAt ?_
    refine missesOn_take hbetween (lays_between rfl rfl (lays_exprList (deeper_lays maxNesting)))
      trivial fun _ => ?_
    exact missesOn_annotation_last hfails

end Definitions

section Groups

variable {k : Nat} {typePlace : TypePlace} (hfails : typeError? ts = some k)
  (hcolon : (before ++ ts).toArray[before.length - 1]?.map Token.kind = some .colon)
include hcolon

/-- A definition that ends before the colon is not followed by others. -/
lemma any_and_at_reported (hlast : typePlace.isLast = true) :
    ((before ++ ts).toArray[typePlace.reportedAt before.length k]?.map Token.kind).any
      (· == .kwAnd) = false := by
  rw [TypePlace.reportedAt, if_pos hlast, hcolon]
  rfl

include hfails

/-- Definitions are read one after the other up to the one whose type cannot be read. -/
lemma misses_laterDefs {n : Nat} {mark : String} (hdefs : DefsUpTo typePlace ws)
    (h : Left before ts ((.kwAnd, mark) :: ws) s)
    (hn : (ahead (before ++ ts).toArray s).length ≤ n) :
    Misses typePlace.isLast (typePlace.reportedAt before.length k)
      (manyUpTo (· == .kwAnd) (do let _ ← expect .kwAnd; letDef outermost) n
        (before ++ ts).toArray s) := by
  have hstarts : (firstKind (ahead (before ++ ts).toArray s) none).any (· == .kwAnd) = true := by
    rw [h.ahead]
    rfl
  induction hdefs generalizing n s mark with
  | last hhead =>
    rw [length_left h, List.length_cons] at hn
    obtain ⟨n, rfl⟩ : ∃ m, n = m + 1 := Nat.exists_eq_add_one.mpr (by omega)
    have hitem : MissesOn before ts typePlace.isLast (typePlace.reportedAt before.length k)
        (do let _ ← expect .kwAnd; letDef outermost) ((.kwAnd, mark) :: _) :=
      missesOn_expect fun _ => missesOn_letDef hfails hhead
    exact misses_manyUpTo_last hstarts (hitem s h) (any_and_at_reported hcolon)
  | @next ds ws mark' hds hdefs ih =>
    have hreads : Reads (do let _ ← expect .kwAnd; letDef outermost) ((.kwAnd, mark) :: ds)
        (· = some .kwAnd) fun _ => True := reads_expect_bind fun _ _ => hds
    have htakes : Takes true [] (do let _ ← expect .kwAnd; letDef outermost) fun _ _ => True :=
      fun next => takes_expect fun _ _ next =>
        (laysLoosely_letDef (deeper_lays maxNesting) next).frame.imp fun _ _ _ => trivial
    -- `and` is next, so no type was left out at the end of this definition
    obtain ⟨a, s', hrun, -, h'⟩ := Left.take h hreads htakes rfl fun _ heq => by cases heq
    have hshorter : (ahead (before ++ ts).toArray s').length + 1 ≤ n := by
      rw [length_left h, List.length_cons, List.length_append] at hn
      rw [length_left h']
      omega
    obtain ⟨n, rfl⟩ : ∃ m, n = m + 1 := Nat.exists_eq_add_one.mpr (by omega)
    refine misses_manyUpTo_next hstarts hrun (ih h' (by omega) ?_)
    rw [h'.ahead]
    rfl

lemma missesOn_defs (hdefs : DefsUpTo typePlace ws) :
    MissesOn before ts typePlace.isLast (typePlace.reportedAt before.length k)
      (separated .kwAnd (letDef outermost)) ws := by
  intro s h
  cases hdefs with
  | last hhead =>
    refine (missesOn_letDef hfails hhead s h).bind fun hlast a s' hindex => ?_
    have hnone : many (· == .kwAnd) (do let _ ← expect .kwAnd; letDef outermost)
        (before ++ ts).toArray s' = (.ok [], s') := by
      refine manyUpTo_stop ?_ _
      rw [hindex]
      exact any_and_at_reported hcolon hlast
    exact ⟨[a], s', bind_run_ok hnone, hindex⟩
  | next hds hdefs =>
    obtain ⟨a, s', hrun, -, h'⟩ := h.take hds (laysLoosely_letDef (deeper_lays maxNesting)) rfl
      fun _ heq => by cases heq
    have hmany : Misses typePlace.isLast (typePlace.reportedAt before.length k)
        (many (· == .kwAnd) (do let _ ← expect .kwAnd; letDef outermost)
          (before ++ ts).toArray s') :=
      misses_laterDefs hfails hcolon hdefs h' (Nat.le_of_eq (length_ahead _ s'))
    rw [separated, bind_run_ok hrun]
    exact hmany.bind fun _ as s₁ hindex => ⟨a :: as, s₁, rfl, hindex⟩

lemma missesOn_letGroup (hgroup : GroupUpTo typePlace ws) :
    MissesOn before ts typePlace.isLast (typePlace.reportedAt before.length k)
      (letGroup outermost) ws := by
  have hrest : ∀ (start : Token) (isRec : Option Token) (ws : List Word), DefsUpTo typePlace ws →
      MissesOn before ts typePlace.isLast (typePlace.reportedAt before.length k) (do
        let defs ← separated .kwAnd (letDef outermost)
        return LetGroup.mk (← newSiteFrom start.span) isRec.isSome defs) ws := by
    intro start isRec ws hdefs s h
    exact (missesOn_defs hfails hcolon hdefs s h).bind fun _ _ s' hindex => ⟨_, _, rfl, hindex⟩
  cases hgroup with
  | plain hdefs =>
    refine missesOn_expect fun start => ?_
    obtain ⟨w, vs, rfl, hw⟩ := hdefs.first
    have hplain : w.1 ≠ .kwRec := by
      intro heq
      rw [heq] at hw
      cases hw
    refine missesOn_take (reads_optional_none (refuses_expect .kwRec)) lays_optionalRec ?_
      fun isRec => hrest start isRec _ hdefs
    exact fun heq => hplain (Option.some.inj heq)
  | recursive hdefs =>
    refine missesOn_expect fun start => ?_
    exact missesOn_take (reads_optional (reads_expect .kwRec _)) lays_optionalRec trivial
      fun isRec => hrest start isRec _ hdefs

lemma missesOn_definition (hgroup : GroupUpTo typePlace ws) :
    MissesOn before ts typePlace.isLast (typePlace.reportedAt before.length k)
      (definition outermost) ws := by
  intro s h
  have hfirst : firstKind (ahead (before ++ ts).toArray s) none = some .kwLet := by
    rw [h.ahead]
    cases hgroup <;> rfl
  rw [definition, bind_run_ok (peekKind_run _ _), hfirst]
  exact (missesOn_letGroup hfails hcolon hgroup s h).bind fun _ g s' hindex =>
    ⟨.lets g, s', rfl, hindex⟩

end Groups

lemma HeadUpTo.colon_last {typePlace : TypePlace} (h : HeadUpTo typePlace ws) :
    ∃ text, ws.getLast? = some (.colon, text) := by
  cases h <;> simp [List.getLast?_cons, List.getLast?_append]

lemma DefsUpTo.colon_last {typePlace : TypePlace} (h : DefsUpTo typePlace ws) :
    ∃ text, ws.getLast? = some (.colon, text) := by
  induction h with
  | last h => exact h.colon_last
  | next _ _ ih =>
    obtain ⟨text, hlast⟩ := ih
    exact ⟨text, by simp [List.getLast?_append, List.getLast?_cons, hlast]⟩

lemma GroupUpTo.colon_last {typePlace : TypePlace} (h : GroupUpTo typePlace ws) :
    ∃ text, ws.getLast? = some (.colon, text) := by
  cases h with
  | plain h | recursive h =>
    obtain ⟨text, hlast⟩ := h.colon_last
    exact ⟨text, by simp [List.getLast?_cons, hlast]⟩

/-- The last token before the type is the colon. -/
lemma colon_before_type (ts : List Token) {typePlace : TypePlace}
    (h : GroupUpTo typePlace (before.map word)) :
    before ≠ [] ∧ (before ++ ts).toArray[before.length - 1]?.map Token.kind = some .colon := by
  obtain ⟨text, hlast⟩ := h.colon_last
  rw [List.getLast?_map] at hlast
  obtain ⟨token, hget, hword⟩ := Option.map_eq_some_iff.mp hlast
  have hne : before ≠ [] := by
    rintro rfl
    cases hget
  have hlt : before.length - 1 < before.length := Nat.sub_one_lt (mt List.length_eq_zero_iff.mp hne)
  refine ⟨hne, ?_⟩
  rw [List.getElem?_toArray, List.getElem?_append_left hlt, ← List.getLast?_eq_getElem?, hget]
  exact congrArg (fun w : Word => some w.1) hword

lemma left_initial : Left before ts (before.map word) ParserState.initial where
  ahead := List.map_append
  behind := behind_of_none rfl
  le := Nat.zero_le _

/-- The first error is at the place where the first definition misses its type: it is the furthest
error of that definition, or it says that no definition begins there. -/
lemma Rounds.first_error {attempts : List Attempt}
    (hrounds : Rounds tokens s attempts s') (hsize : s.index < tokens.size)
    (hmisses : Misses isLast place (definition outermost tokens { s with furthest := none }))
    (hnone : isLast = true → ∃ token, tokens[place]? = some token ∧
      startsDefinition token.kind = false) :
    (errorsOf attempts).head?.map SyntaxError.index = some place := by
  cases hrounds with
  | done hend => omega
  | failed _ hrun hkept hrest =>
    rw [hrun] at hmisses
    obtain ⟨-, hplace⟩ := hmisses
    rw [hkept] at hplace
    exact hplace
  | @read _ s₁ _ _ _ _ hrun hrest =>
    rw [hrun] at hmisses
    obtain ⟨hlast, rfl⟩ := hmisses
    obtain ⟨token, hget, hstarts⟩ := hnone hlast
    -- the next round forgets the furthest error and finds no definition
    have hrefused : definition outermost tokens { s₁ with furthest := none } =
        failWith (noDefinitionAt tokens s₁.index) tokens { s₁ with furthest := none } := by
      refine definition_run_refused fun token' htoken => ?_
      cases hget.symm.trans htoken
      exact hstarts
    cases hrest with
    | done hend =>
      rw [hend, Array.getElem?_size] at hget
      cases hget
    | read _ hrun' _ =>
      rw [hrefused] at hrun'
      cases hrun'
    | failed _ hrun' hkept _ =>
      rw [hrefused] at hrun'
      cases hrun'
      cases hkept
      exact congrArg some (index_noDefinitionAt tokens s₁.index)

/-- A type that cannot be read is reported at its furthest error, unless it is the last part of its
definition: then what is reported is the colon before it. -/
theorem malformed_type_reported {typePlace : TypePlace} {k : Nat}
    (hgroup : GroupUpTo typePlace (before.map word)) (hfails : typeError? ts = some k) :
    (parse (before ++ ts)).syntaxErrors.head?.map SyntaxError.index =
      some (if typePlace.isLast then before.length - 1 else before.length + k) := by
  obtain ⟨hne, hcolon⟩ := colon_before_type ts hgroup
  have hsize : 0 < (before ++ ts).toArray.size := by
    rw [List.size_toArray, List.length_append]
    exact Nat.add_pos_left (List.length_pos_iff.mpr hne) _
  obtain ⟨attempts, s', hrounds⟩ :=
    exists_rounds (before ++ ts).toArray ParserState.initial (Nat.zero_le _)
  have herrors : (parse (before ++ ts)).syntaxErrors = errorsOf attempts := by
    rw [hrounds.parse]
    exact hrounds.reportedSyntax.trans (List.nil_append _)
  rw [herrors]
  refine hrounds.first_error hsize (missesOn_definition hfails hcolon hgroup _ left_initial)
    fun hlast => ?_
  obtain ⟨token, hget, hkind⟩ := Option.map_eq_some_iff.mp hcolon
  rw [if_pos hlast]
  exact ⟨token, hget, hkind ▸ rfl⟩

/-- The words `let mutable z and f y (x :`. -/
def sharedGroup : List Word :=
  [(.kwLet, "let"), (.kwMutable, "mutable"), (.genid, "z"), (.kwAnd, "and"), (.genid, "f"),
    (.genid, "y"), (.lParen, "("), (.genid, "x"), (.colon, ":")]

/-- The words `array [ )`, no beginning of a type. -/
def brokenType : List Word := [(.kwArray, "array"), (.lBracket, "["), (.rParen, ")")]

theorem malformed_type_reported_sharedGroup :
    GroupUpTo .parameter ((sharedGroup.map tokenOf).map word) ∧
      typeError? (brokenType.map tokenOf) = some 2 ∧
      (parse (sharedGroup.map tokenOf ++ brokenType.map tokenOf)).syntaxErrors.head?.map
        SyntaxError.index = some 11 := by
  have hparam : Reads (param outermost) [(.genid, "y")] (fun _ => True) fun _ => True := by
    unfold param
    refine reads_isAt_bind (reads_genid_bind fun _ => ?_)
    exact reads_newSite_bind fun _ => reads_pure trivial
  have hdef : Reads (letDef outermost) [(.kwMutable, "mutable"), (.genid, "z")]
      (· = some .kwAnd) fun _ => True := by
    have hnone : Reads (optionalType outermost) [] (· = some .kwAnd) (· = none) :=
      (reads_optional_none (refuses_bind (refuses_expect .colon))).mono
        (fun _ hk => hk ▸ by decide) fun _ h => h
    unfold letDef
    refine reads_isAt_bind ?_
    unfold mutableDef
    refine reads_expect_bind fun _ _ => reads_genid_bind fun _ => ?_
    refine reads_isAt_other_bind (fun k (hk : k = _) => hk ▸ by decide) ?_
    refine reads_bind_last hnone fun _ _ => ?_
    exact reads_newSiteFrom_bind fun _ => reads_pure trivial
  have hparams : ∀ ws ∈ [[(TokenKind.genid, "y")]],
      Reads (param outermost) ws (fun _ => True) fun _ => True :=
    List.forall_mem_singleton.mpr hparam
  have hgroup : GroupUpTo .parameter ((sharedGroup.map tokenOf).map word) :=
    .plain (.next hdef (.last (.parameter hparams)))
  have hfails : typeError? (brokenType.map tokenOf) = some 2 := by decide +kernel
  exact ⟨hgroup, hfails, malformed_type_reported hgroup hfails⟩

/-- A mutable variable with a type that cannot be read. -/
def unreadableSource : String := "let mutable x : )"

/-- The type fails at its first token, but the only error is at the colon before it. -/
theorem unreadable_type_at_colon :
    ∃ before ts, Token.lex unreadableSource = .ok (before ++ ts) ∧
      GroupUpTo .mutableVar (before.map word) ∧ typeError? ts = some 0 ∧
      (parse (before ++ ts)).syntaxErrors.map SyntaxError.index = [before.length - 1] := by
  have hread : (Token.lex unreadableSource).toOption.map (fun tokens =>
      ((tokens.take 4).map word, typeError? (tokens.drop 4),
        (parse tokens).syntaxErrors.map SyntaxError.index)) =
      some ([(.kwLet, "let"), (.kwMutable, "mutable"), (.genid, "x"), (.colon, ":")],
        some 0, [3]) := by
    decide +kernel
  obtain ⟨tokens, htokens, hshown⟩ := Option.map_eq_some_iff.mp hread
  obtain ⟨hwords, hrest⟩ := Prod.mk.inj hshown
  obtain ⟨hfails, herrors⟩ := Prod.mk.inj hrest
  have hlength : (tokens.take 4).length = 4 := by
    rw [← List.length_map, hwords]
    rfl
  refine ⟨tokens.take 4, tokens.drop 4, ?_, ?_, hfails, ?_⟩
  · rw [List.take_append_drop]
    cases hlex : Token.lex unreadableSource with
    | error e =>
      rw [hlex] at htokens
      cases htokens
    | ok tokens' =>
      rw [hlex] at htokens
      cases htokens
      rfl
  · rw [hwords]
    exact .plain (.last .mutableVar)
  · rw [List.take_append_drop, herrors, hlength]

end Llama.Proofs
