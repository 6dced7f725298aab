import Llama.Token.Basic

/-!
# Syntax errors

A syntax error is a token that does not fit, or the end of the input, together with what would
have fitted. While a definition is read, only the errors furthest into the input are kept:
`furthest` joins an error to those kept so far.
-/

namespace Llama

/-- A place in a list of tokens where reading cannot go on. -/
structure SyntaxError where
  /-- The token that does not fit; there is none at the end of the input. -/
  found : Option Token
  /-- What would have fitted. -/
  expected : List String
  /-- What else is to be said. -/
  note : Option String
  /-- The position of the token in the input. -/
  index : Nat
  line : Nat
  column : Nat
deriving DecidableEq, Repr

namespace SyntaxError

def expecting (e : SyntaxError) (what : String) : SyntaxError :=
  { e with expected := e.expected ++ [what] }

def noting (e : SyntaxError) (note : String) : SyntaxError :=
  { e with note := some note }

/-- Adds expectations that are not yet in a list. -/
def mergeExpected (kept : List String) (more : List String) : List String :=
  more.foldl (fun kept what => if kept.contains what then kept else kept ++ [what]) kept

/-- Joins an error to the one kept so far. The one further into the input wins; at the same
place the first is kept and takes over what the other expected, and its note if it has none. -/
def furthest (kept : Option SyntaxError) (e : SyntaxError) : SyntaxError :=
  match kept with
  | none => e
  | some k =>
    if e.index < k.index then k
    else if e.index = k.index then
      { k with
        expected := mergeExpected k.expected e.expected
        note := k.note.or e.note }
    else e

/-- What a syntax error says before its note. -/
def headline (e : SyntaxError) : String :=
  let place := toString e.line ++ ":" ++ toString e.column ++ ": syntax error "
  match e.found with
  | some token => place ++ "on token " ++ token.kind.name ++ " '" ++ token.value ++ "'"
  | none => place ++ "at end of input"

def message (e : SyntaxError) : String :=
  let note := match e.note with
    | some note => ": " ++ note
    | none => ""
  let expected :=
    if e.expected.isEmpty then ""
    else " (expected " ++ " or ".intercalate e.expected ++ ")"
  e.headline ++ note ++ expected

end SyntaxError

end Llama
