import Llama.Text.Numeral

/-!
# The values of character and string literals

The body of a literal is what stands between its quotes. Its escapes are found by a pattern, a
backslash with `x` and two hexadecimal digits or with any one character but a newline, and replaced
one after the other. An escape stands for one character if it has one of `n t r 0 \ ' "`, or `x`
with digits. A body with any other escape has no value.
-/

namespace Llama.Literal

/-- The character that an escape of one letter stands for. -/
def simpleEscape? (c : Char) : Option Char :=
  if c = 'n' then some '\n'
  else if c = 't' then some '\t'
  else if c = 'r' then some '\r'
  else if c = '0' then some '\x00'
  else if c = '\\' || c = '\'' || c = '"' then some c
  else none

/-- The character with the code that two hexadecimal digits write. -/
def hexChar (a b : Char) : Char :=
  Char.ofNat (16 * Text.hexDigitValue a + Text.hexDigitValue b)

/-- What a text starts with and what follows it: `x` and two hexadecimal digits. -/
def codeAt? : List Char → Option (List Char × List Char)
  | 'x' :: a :: b :: cs =>
    if Text.isHexDigit a && Text.isHexDigit b then some (['x', a, b], cs) else none
  | _ => none

/-- What a text starts with and what follows it: one character, but no newline. -/
def anyAt? : List Char → Option (List Char × List Char)
  | c :: cs => if c = '\n' then none else some ([c], cs)
  | [] => none

/-- The escape that a text starts with, without its backslash, and what follows it. Of the two
alternatives the first that fits is taken. -/
def escapeAt? : List Char → Option (List Char × List Char)
  | '\\' :: cs => (codeAt? cs).or (anyAt? cs)
  | _ => none

/-- The leftmost escape of a text, between what stands before it and what follows it. -/
def findEscape? : List Char → Option (List Char × List Char × List Char)
  | [] => none
  | c :: cs =>
    match escapeAt? (c :: cs) with
    | some (escape, rest) => some ([], escape, rest)
    | none => (findEscape? cs).map fun (before, found) => (c :: before, found)

theorem length_of_escapeAt? {cs escape rest : List Char}
    (h : escapeAt? cs = some (escape, rest)) : rest.length < cs.length := by
  unfold escapeAt? at h
  split at h
  case h_1 cs =>
    rcases Option.or_eq_some_iff.mp h with hcode | ⟨-, hany⟩
    · unfold codeAt? at hcode
      grind
    · unfold anyAt? at hany
      grind
  case h_2 => cases h

theorem length_of_findEscape? {cs before escape rest : List Char}
    (h : findEscape? cs = some (before, escape, rest)) : rest.length < cs.length := by
  induction cs generalizing before with
  | nil => cases h
  | cons c cs ih =>
    unfold findEscape? at h
    split at h
    · next hfound =>
      cases h
      exact length_of_escapeAt? hfound
    · obtain ⟨⟨before, found⟩, hfound, heq⟩ := Option.map_eq_some_iff.mp h
      cases heq
      exact Nat.lt_succ_of_lt (ih hfound)

/-- Replaces the escapes of a text one after the other. The search for an escape starts where the
one before it ends. -/
def replaceAll {σ : Type} (replace : List Char → StateM σ Char) (text : List Char) :
    StateM σ (List Char) :=
  match _ : findEscape? text with
  | none => pure text
  | some (before, escape, rest) => do
    let c ← replace escape
    let rest ← replaceAll replace rest
    return before ++ c :: rest
termination_by text.length
decreasing_by exact length_of_findEscape? ‹_›

/-- The character that an escape stands for, if any. -/
def escapeValue? : List Char → Option Char
  | [c] => simpleEscape? c
  | ['x', a, b] => some (hexChar a b)
  | _ => none

/-- What an escape is replaced by. The state says whether all escapes so far stand for
something. -/
def replacement (escape : List Char) : StateM Bool Char :=
  match escapeValue? escape with
  | some c => pure c
  | none => do
    set false
    return '?'

/-- The characters that the body of a literal stands for. -/
def decode? (body : List Char) : Option (List Char) :=
  let (decoded, valid) := (replaceAll replacement body).run true
  if valid then some decoded else none

def body? (quote : Char) : List Char → Option (List Char)
  | [] => none
  | c :: cs =>
    if c = quote && cs.getLast? = some quote then some cs.dropLast else none

/-- The value of a character literal: its body must stand for exactly one character. -/
def char? (literal : String) : Option Char :=
  match (body? '\'' literal.toList).bind decode? with
  | some [c] => some c
  | _ => none

def string? (literal : String) : Option String :=
  ((body? '"' literal.toList).bind decode?).map String.ofList

end Llama.Literal
