import Llama.Proofs.PatternReading

/-!
# The grammar of patterns

A pattern is a constructor with simple patterns after it, or a simple pattern. `Derives` says this
as a grammar over words. The first word chooses the production, and a derivation is unique once it
is known that no further argument follows.
-/

namespace Llama.Proofs

open Llama.Parser Llama.Grammar

variable {kind sign : TokenKind} {negative : Bool} {tail : List Word}

/-- What a part of a pattern can be. -/
inductive Nonterminal where
  | pattern
  | simple
  /-- Any number of simple patterns. -/
  | simples

/-- The kinds of literals that are patterns on their own. -/
def isPatternLiteral : TokenKind → Bool
  | .kwTrue | .kwFalse | .charLiteral | .intLiteral | .floatLiteral => true
  | _ => false

/-- The kind of literals that a sign belongs to, and whether the sign is negative. -/
def signOf? : TokenKind → Option (TokenKind × Bool)
  | .plus => some (.intLiteral, false)
  | .minus => some (.intLiteral, true)
  | .fPlus => some (.floatLiteral, false)
  | .fMinus => some (.floatLiteral, true)
  | _ => none

/-- The words derive the patterns, whose nodes have neither numbers nor spans. -/
inductive Derives : Nonterminal → List Word → List Pattern → Prop
  | construct {name : String} {ws : List Word} {args : List Pattern}
      (h : Derives .simples ws args) :
      Derives .pattern ((.conid, name) :: ws) [.constr default name args]
  | alone {ws : List Word} {p : Pattern} (h : Derives .simple ws [p]) : Derives .pattern ws [p]
  | parens {opening closing : String} {ws : List Word} {p : Pattern}
      (h : Derives .pattern ws [p]) :
      Derives .simple ((.lParen, opening) :: (ws ++ [(.rParen, closing)])) [p]
  | literal {kind : TokenKind} {text : String} {c : Const} (hkind : isPatternLiteral kind = true)
      (hc : constantOf kind text = .ok c) : Derives .simple [(kind, text)] [.const default c]
  | signed {sign kind : TokenKind} {negative : Bool} {mark text : String} {c : Const}
      (hsign : signOf? sign = some (kind, negative))
      (hc : constantOf kind (if negative then "-" ++ text else text) = .ok c) :
      Derives .simple [(sign, mark), (kind, text)] [.const default c]
  | var {name : String} : Derives .simple [(.genid, name)] [.var default name]
  | constr {name : String} : Derives .simple [(.conid, name)] [.constr default name []]
  | none : Derives .simples [] []
  | more {ws ws' : List Word} {p : Pattern} {ps : List Pattern} (h : Derives .simple ws [p])
      (h' : Derives .simples ws' ps) : Derives .simples (ws ++ ws') (p :: ps)

/-- The words can begin a derivation. -/
def Viable (σ : Nonterminal) (ws : List Word) : Prop := ∃ more ps, Derives σ (ws ++ more) ps

/-- A token of the kind can begin a simple pattern. -/
def Begins (kind : TokenKind) : Prop := ∃ text, Viable .simple [(kind, text)]

/-- Of the words `v` after a derivation of `u`, the first is no further argument. -/
def Ends : Nonterminal → (u v : List Word) → Prop
  | .pattern, u, v => firstKind u none = some .conid → endsPattern (firstKind v none)
  | .simple, _, _ => True
  | .simples, _, v => endsPattern (firstKind v none)

/-- The number of parentheses that a word opens. -/
def opens (w : Word) : Int :=
  if w.1 = .lParen then 1 else if w.1 = .rParen then -1 else 0

/-- The number of parentheses that are open after the words. -/
def opened : List Word → Int
  | [] => 0
  | w :: ws => opens w + opened ws

/-- Fewer than `levels` parentheses are open at once. -/
def Shallow (levels : Nat) (ws : List Word) : Prop := ∀ front, front <+: ws → opened front < levels

section Derivations

variable {σ : Nonterminal} {u v u' v' ws : List Word} {ps ps' : List Pattern} {w : Word}

lemma opened_append (u v : List Word) : opened (u ++ v) = opened u + opened v := by
  induction u with
  | nil => simp [opened]
  | cons w u ih => rw [List.cons_append, opened, opened, ih, Int.add_assoc]

lemma patternLiteral_cases (h : isPatternLiteral kind = true) :
    kind = .kwTrue ∨ kind = .kwFalse ∨ kind = .charLiteral ∨ kind = .intLiteral ∨
      kind = .floatLiteral := by
  unfold isPatternLiteral at h
  split at h <;> simp_all

lemma sign_cases (h : signOf? sign = some (kind, negative)) :
    (sign = .plus ∧ kind = .intLiteral ∧ negative = false) ∨
      (sign = .minus ∧ kind = .intLiteral ∧ negative = true) ∨
      (sign = .fPlus ∧ kind = .floatLiteral ∧ negative = false) ∨
      (sign = .fMinus ∧ kind = .floatLiteral ∧ negative = true) := by
  unfold signOf? at h
  split at h <;> simp_all

/-- A simple pattern starts with a word that the parser takes for the start of one. -/
lemma exists_of_simple (h : Derives .simple ws ps) :
    (∃ p, ps = [p]) ∧ ∃ w tail, ws = w :: tail ∧ startsSimplePattern w.1 = true := by
  cases h with
  | parens h => exact ⟨⟨_, rfl⟩, _, _, rfl, rfl⟩
  | literal hkind hc =>
    refine ⟨⟨_, rfl⟩, _, _, rfl, ?_⟩
    rcases patternLiteral_cases hkind with rfl | rfl | rfl | rfl | rfl <;> rfl
  | signed hsign hc =>
    refine ⟨⟨_, rfl⟩, _, _, rfl, ?_⟩
    rcases sign_cases hsign with ⟨rfl, -⟩ | ⟨rfl, -⟩ | ⟨rfl, -⟩ | ⟨rfl, -⟩ <;> rfl
  | var => exact ⟨⟨_, rfl⟩, _, _, rfl, rfl⟩
  | constr => exact ⟨⟨_, rfl⟩, _, _, rfl, rfl⟩

/-- Every parenthesis of a derivation is closed. -/
lemma opened_eq_zero (h : Derives σ ws ps) : opened ws = 0 := by
  induction h with
  | construct _ ih => rw [opened, ih]; rfl
  | alone _ ih => exact ih
  | parens _ ih => rw [opened, opened_append, ih]; rfl
  | literal hkind hc =>
    rcases patternLiteral_cases hkind with rfl | rfl | rfl | rfl | rfl <;> rfl
  | signed hsign hc =>
    rcases sign_cases hsign with ⟨rfl, rfl, -⟩ | ⟨rfl, rfl, -⟩ | ⟨rfl, rfl, -⟩ | ⟨rfl, rfl, -⟩ <;>
      rfl
  | var => rfl
  | constr => rfl
  | none => rfl
  | more _ _ ih ih' => rw [opened_append, ih, ih']; rfl

/-- A derivation that starts with a constructor lists its arguments, and any other is a simple
pattern. -/
lemma pattern_cases (h : Derives .pattern ws ps) :
    (∃ name tail args, ws = (.conid, name) :: tail ∧ Derives .simples tail args ∧
      ps = [.constr default name args]) ∨
    (firstKind ws none ≠ some .conid ∧ Derives .simple ws ps) := by
  cases h with
  | construct h => exact .inl ⟨_, _, _, rfl, h, rfl⟩
  | alone h =>
    cases h with
    | constr => exact .inl ⟨_, _, _, rfl, .none, rfl⟩
    | parens h => exact .inr ⟨nofun, .parens h⟩
    | literal hkind hc =>
      refine .inr ⟨?_, .literal hkind hc⟩
      rcases patternLiteral_cases hkind with rfl | rfl | rfl | rfl | rfl <;> nofun
    | signed hsign hc =>
      refine .inr ⟨?_, .signed hsign hc⟩
      rcases sign_cases hsign with ⟨rfl, -⟩ | ⟨rfl, -⟩ | ⟨rfl, -⟩ | ⟨rfl, -⟩ <;> nofun
    | var => exact .inr ⟨nofun, .var⟩

lemma exists_of_pattern (h : Derives .pattern ws ps) : ∃ p, ps = [p] := by
  cases h <;> exact ⟨_, rfl⟩

/-! ### Which derivation the first word chooses -/

lemma simple_parens {opening : String} (h : Derives .simple ((.lParen, opening) :: tail) ps) :
    ∃ ws closing, tail = ws ++ [(.rParen, closing)] ∧ Derives .pattern ws ps := by
  generalize hws : (TokenKind.lParen, opening) :: tail = ws at h
  cases h with
  | parens h =>
    obtain ⟨-, rfl⟩ := List.cons.inj hws
    exact ⟨_, _, rfl, h⟩
  | literal hkind hc =>
    rcases patternLiteral_cases hkind with rfl | rfl | rfl | rfl | rfl <;> cases hws
  | signed hsign hc =>
    rcases sign_cases hsign with ⟨rfl, -⟩ | ⟨rfl, -⟩ | ⟨rfl, -⟩ | ⟨rfl, -⟩ <;> cases hws
  | var => cases hws
  | constr => cases hws

lemma simple_literal {text : String} (hkind : isPatternLiteral kind = true)
    (h : Derives .simple ((kind, text) :: tail) ps) :
    tail = [] ∧ ∃ c, constantOf kind text = .ok c ∧ ps = [.const default c] := by
  generalize hws : (kind, text) :: tail = ws at h
  cases h with
  | literal hkind' hc =>
    cases hws
    exact ⟨rfl, _, hc, rfl⟩
  | signed hsign hc =>
    rcases sign_cases hsign with ⟨rfl, -⟩ | ⟨rfl, -⟩ | ⟨rfl, -⟩ | ⟨rfl, -⟩ <;> cases hws <;>
      cases hkind
  | parens h => cases hws; cases hkind
  | var => cases hws; cases hkind
  | constr => cases hws; cases hkind

lemma simple_signed {mark : String} (hsign : signOf? sign = some (kind, negative))
    (h : Derives .simple ((sign, mark) :: tail) ps) :
    ∃ text c, tail = [(kind, text)] ∧
      constantOf kind (if negative then "-" ++ text else text) = .ok c ∧
      ps = [.const default c] := by
  generalize hws : (sign, mark) :: tail = ws at h
  cases h with
  | signed hsign' hc =>
    cases hws
    cases hsign.symm.trans hsign'
    exact ⟨_, _, rfl, hc, rfl⟩
  | literal hkind hc =>
    rcases patternLiteral_cases hkind with rfl | rfl | rfl | rfl | rfl <;> cases hws <;>
      cases hsign
  | parens h => cases hws; cases hsign
  | var => cases hws; cases hsign
  | constr => cases hws; cases hsign

lemma simple_name {name : String} (hkind : kind = .genid ∨ kind = .conid)
    (h : Derives .simple ((kind, name) :: tail) ps) :
    tail = [] ∧ ps = [if kind = .genid then .var default name else .constr default name []] := by
  generalize hws : (kind, name) :: tail = ws at h
  cases h with
  | var =>
    cases hws
    exact ⟨rfl, rfl⟩
  | constr =>
    cases hws
    exact ⟨rfl, rfl⟩
  | literal hkind' hc =>
    cases hws
    rcases hkind with rfl | rfl <;> cases hkind'
  | signed hsign hc =>
    cases hws
    rcases hkind with rfl | rfl <;> cases hsign
  | parens h =>
    cases hws
    rcases hkind with hkind | hkind <;> cases hkind

/-- Where no argument comes next there are none. -/
lemma simples_stop (h : Derives .simples u ps) (hends : endsPattern (firstKind (u ++ v) none)) :
    u = [] ∧ ps = [] := by
  cases h with
  | none => exact ⟨rfl, rfl⟩
  | more h h' =>
    obtain ⟨-, w, tail, rfl, hstarts⟩ := exists_of_simple h
    exact absurd (hends.symm.trans hstarts) (by decide)

/-- Of the words ahead at most one beginning is a derivation after which no argument comes. -/
lemma derives_unique (h : Derives σ u ps) (h' : Derives σ u' ps') (heq : u ++ v = u' ++ v')
    (hends : Ends σ u v) (hends' : Ends σ u' v') : u = u' ∧ ps = ps' := by
  induction h generalizing u' ps' v v' with
  | construct h ih =>
    rcases pattern_cases h' with ⟨name', tail, args', rfl, htail, rfl⟩ | ⟨hfirst, hsimple⟩
    · obtain ⟨hname, hrest⟩ := List.cons.inj heq
      cases hname
      obtain ⟨rfl, rfl⟩ := ih htail hrest (hends rfl) (hends' rfl)
      exact ⟨rfl, rfl⟩
    · obtain ⟨-, w, tail, rfl, -⟩ := exists_of_simple hsimple
      rw [← (List.cons.inj heq).1] at hfirst
      exact absurd rfl hfirst
  | alone h ih =>
    obtain ⟨-, w, tail, rfl, -⟩ := exists_of_simple h
    rcases pattern_cases h' with ⟨name, tail', args, rfl, htail', rfl⟩ | ⟨-, hsimple⟩
    · -- The first derivation is the constructor alone, so that no argument follows it.
      obtain ⟨rfl, hrest⟩ := List.cons.inj heq
      obtain ⟨rfl, hp⟩ := simple_name (.inr rfl) h
      replace hrest : v = tail' ++ v' := hrest
      rw [hrest] at hends
      have hstop := hends rfl
      obtain ⟨rfl, rfl⟩ := simples_stop htail' hstop
      exact ⟨rfl, hp⟩
    · exact ih hsimple heq trivial trivial
  | @parens opening closing ws p h ih =>
    obtain ⟨-, w, tail, rfl, -⟩ := exists_of_simple h'
    obtain ⟨rfl, hrest⟩ := List.cons.inj heq
    obtain ⟨ws', closing', rfl, hinner⟩ := simple_parens h'
    replace hrest : ws ++ ((.rParen, closing) :: v) = ws' ++ ((.rParen, closing') :: v') := by
      simpa using hrest
    obtain ⟨rfl, rfl⟩ := ih hinner hrest (fun _ => rfl) (fun _ => rfl)
    have hclosing := List.append_cancel_left hrest
    rw [(List.cons.inj hclosing).1]
    exact ⟨rfl, rfl⟩
  | literal hkind hc =>
    obtain ⟨-, w, tail, rfl, -⟩ := exists_of_simple h'
    obtain ⟨rfl, -⟩ := List.cons.inj heq
    obtain ⟨rfl, c, hc', rfl⟩ := simple_literal hkind h'
    cases hc.symm.trans hc'
    exact ⟨rfl, rfl⟩
  | signed hsign hc =>
    obtain ⟨-, w, tail, rfl, -⟩ := exists_of_simple h'
    obtain ⟨rfl, hrest⟩ := List.cons.inj heq
    obtain ⟨text, c, rfl, hc', rfl⟩ := simple_signed hsign h'
    cases (List.cons.inj hrest).1
    cases hc.symm.trans hc'
    exact ⟨rfl, rfl⟩
  | var =>
    obtain ⟨-, w, tail, rfl, -⟩ := exists_of_simple h'
    obtain ⟨rfl, -⟩ := List.cons.inj heq
    obtain ⟨rfl, rfl⟩ := simple_name (.inl rfl) h'
    exact ⟨rfl, rfl⟩
  | constr =>
    obtain ⟨-, w, tail, rfl, -⟩ := exists_of_simple h'
    obtain ⟨rfl, -⟩ := List.cons.inj heq
    obtain ⟨rfl, rfl⟩ := simple_name (.inr rfl) h'
    exact ⟨rfl, rfl⟩
  | none =>
    rw [List.nil_append] at heq
    have hstop : endsPattern (firstKind (u' ++ v') none) := heq ▸ hends
    obtain ⟨rfl, rfl⟩ := simples_stop h' hstop
    exact ⟨rfl, rfl⟩
  | @more ws ws' p ps h hs ih ih' =>
    cases h' with
    | none =>
      rw [List.nil_append] at heq
      have hstop : endsPattern (firstKind (ws ++ ws' ++ v) none) := heq ▸ hends'
      obtain ⟨hnil, hps⟩ := simples_stop (.more h hs) hstop
      cases hps
    | more h₁ h₂ =>
      rw [List.append_assoc, List.append_assoc] at heq
      obtain ⟨rfl, hp⟩ := ih h₁ heq trivial trivial
      obtain ⟨rfl, rfl⟩ := ih' h₂ (List.append_cancel_left heq) hends hends'
      cases hp
      exact ⟨rfl, rfl⟩

lemma viable_nil (σ : Nonterminal) : Viable σ [] :=
  match σ with
  | .pattern => ⟨_, _, .alone (@Derives.var "x")⟩
  | .simple => ⟨_, _, @Derives.var "x"⟩
  | .simples => ⟨[], _, .none⟩

lemma viable_sign (hsign : signOf? sign = some (kind, negative)) (mark : String) :
    Viable .simple [(sign, mark)] := by
  have hzero : ∃ text c, constantOf kind (if negative then "-" ++ text else text) = .ok c := by
    rcases sign_cases hsign with ⟨-, rfl, rfl⟩ | ⟨-, rfl, rfl⟩ | ⟨-, rfl, rfl⟩ | ⟨-, rfl, rfl⟩
    · exact ⟨"0", .int 0, rfl⟩
    · exact ⟨"0", .int 0, rfl⟩
    · exact ⟨"0.0", _, rfl⟩
    · exact ⟨"0.0", _, rfl⟩
  obtain ⟨text, c, hc⟩ := hzero
  exact ⟨_, _, .signed hsign hc⟩

/-- There are literals of every kind. -/
lemma exists_literal (h : isPatternLiteral kind = true) :
    ∃ text c, constantOf kind text = .ok c := by
  rcases patternLiteral_cases h with rfl | rfl | rfl | rfl | rfl
  · exact ⟨"true", _, rfl⟩
  · exact ⟨"false", _, rfl⟩
  · exact ⟨"'x'", .char 'x', by decide +kernel⟩
  · exact ⟨"0", _, rfl⟩
  · exact ⟨"0.0", _, rfl⟩

lemma startsSimplePattern_cases (h : startsSimplePattern kind = true) :
    kind = .lParen ∨ isPatternLiteral kind = true ∨
      (∃ literal negative, signOf? kind = some (literal, negative)) ∨
      (kind = .genid ∨ kind = .conid) := by
  unfold startsSimplePattern at h
  split at h <;> simp_all [isPatternLiteral, signOf?]

lemma begins_iff (kind : TokenKind) : Begins kind ↔ startsSimplePattern kind = true := by
  constructor
  · rintro ⟨text, more, ps, h⟩
    obtain ⟨-, w, tail, heq, hstarts⟩ := exists_of_simple h
    cases heq
    exact hstarts
  · intro h
    rcases startsSimplePattern_cases h with rfl | hkind | ⟨literal, negative, hsign⟩ | hkind
    · exact ⟨"(", [(.genid, "x"), (.rParen, ")")], _, .parens (.alone .var)⟩
    · obtain ⟨text, c, hc⟩ := exists_literal hkind
      exact ⟨text, [], _, .literal hkind hc⟩
    · exact ⟨"", viable_sign hsign ""⟩
    · rcases hkind with rfl | rfl
      · exact ⟨"x", [], _, .var⟩
      · exact ⟨"X", [], _, .constr⟩

lemma endsPattern_iff (k : Option TokenKind) :
    endsPattern k ↔ ∀ kind, k = some kind → ¬ Begins kind := by
  cases k with
  | none => exact ⟨fun _ => nofun, fun _ => rfl⟩
  | some kind => simp [endsPattern, begins_iff]

variable {levels : Nat}

lemma shallow_nil : Shallow (levels + 1) [] := by
  intro front hfront
  rw [List.prefix_nil.mp hfront]
  exact Int.natCast_pos.mpr (Nat.succ_pos levels)

lemma shallow_cons {w : Word} (hopens : opens w = 0) (h : Shallow (levels + 1) ws) :
    Shallow (levels + 1) (w :: ws) := by
  intro front hfront
  rcases List.prefix_cons_iff.mp hfront with rfl | ⟨tail, rfl, htail⟩
  · exact shallow_nil [] List.prefix_rfl
  · rw [opened, hopens, Int.zero_add]
    exact h tail htail

lemma shallow_append (h : Shallow levels u) (hzero : opened u = 0) (h' : Shallow levels v) :
    Shallow levels (u ++ v) := by
  rintro front ⟨back, hback⟩
  rcases List.append_eq_append_iff.mp hback with ⟨more, hu, -⟩ | ⟨more, rfl, hv⟩
  · exact h front ⟨more, hu.symm⟩
  · rw [opened_append, hzero, Int.zero_add]
    exact h' more ⟨back, hv.symm⟩

lemma shallow_parens {opening closing : String} (h : Shallow levels ws) (hzero : opened ws = 0) :
    Shallow (levels + 1) ((.lParen, opening) :: (ws ++ [(.rParen, closing)])) := by
  intro front hfront
  rcases List.prefix_cons_iff.mp hfront with rfl | ⟨tail, rfl, htail⟩
  · exact shallow_nil [] List.prefix_rfl
  · rcases List.prefix_concat_iff.mp htail with rfl | htail
    · have hclosed : opened (ws ++ [(.rParen, closing)]) = -1 := by
        rw [opened_append, hzero]
        rfl
      rw [opened, hclosed]
      show (1 : Int) + -1 < _
      omega
    · have hinner := h tail htail
      rw [opened]
      show 1 + opened tail < _
      omega

end Derivations

end Llama.Proofs
