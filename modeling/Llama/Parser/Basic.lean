import Llama.Parser.Error
import Llama.Report
import Llama.TypeTable

/-!
# Parsers

A parser reads tokens from a position on. It has a result or fails with a syntax error, and in
both cases leaves a state behind: a failure does not go back to where the parser started. The
state also holds the number of the next node, how deep the parser is nested, the furthest error
since the current definition began, the reports so far, and the types that were defined.
-/

namespace Llama

/-- What reading has left behind so far. -/
structure ParserState where
  /-- The position of the next token. -/
  index : Nat
  /-- The number of the next node. -/
  nextId : NodeId
  /-- The number of levels that are entered. -/
  depth : Nat
  /-- The furthest error since it was last cleared. -/
  furthest : Option SyntaxError
  reports : List Report
  types : TypeTable

def ParserState.initial : ParserState := ⟨0, 0, 0, none, [], TypeTable.initial⟩

/-- Reads a value of type `α` from the given tokens. -/
def Parser (α : Type) : Type :=
  Array Token → ParserState → Except SyntaxError α × ParserState

namespace Parser

/-- Runs a parser on tokens from a state on. -/
def run {α : Type} (p : Parser α) (tokens : Array Token) (s : ParserState) :
    Except SyntaxError α × ParserState :=
  p tokens s

instance : Monad Parser where
  pure a := fun _ s => (.ok a, s)
  bind p f := fun tokens s =>
    match p tokens s with
    | (.ok a, s) => f a tokens s
    | (.error e, s) => (.error e, s)

instance : LawfulMonad Parser :=
  LawfulMonad.mk' _
    (fun p => by
      funext tokens s
      simp only [Functor.map]
      rcases p tokens s with ⟨_ | _, _⟩ <;> rfl)
    (fun _ _ => rfl)
    (fun p _ _ => by
      funext tokens s
      simp only [bind]
      rcases p tokens s with ⟨_ | _, _⟩ <;> rfl)

def fail {α : Type} (e : SyntaxError) : Parser α := fun _ s => (.error e, s)

def read {α : Type} (f : Array Token → ParserState → α) : Parser α :=
  fun tokens s => (.ok (f tokens s), s)

def modify (f : ParserState → ParserState) : Parser Unit := fun _ s => (.ok (), f s)

/-- The result or failure of a parser as a value. -/
def attempt {α : Type} (p : Parser α) : Parser (Except SyntaxError α) :=
  fun tokens s => let (result, s) := p tokens s; (.ok result, s)

/-! ### Tokens -/

def index : Parser Nat := read fun _ s => s.index

def remaining : Parser Nat := read fun tokens s => tokens.size - s.index

def peek : Parser (Option Token) := read fun tokens s => tokens[s.index]?

/-- The kind of the token a number of places after the next one. -/
def peekKindAt (offset : Nat) : Parser (Option TokenKind) :=
  read fun tokens s => tokens[s.index + offset]?.map Token.kind

def peekKind : Parser (Option TokenKind) := read fun tokens s => tokens[s.index]?.map Token.kind

def isAt (kind : TokenKind) : Parser Bool := return (← peekKind) == some kind

/-- Whether there is a next token and its kind is in the given class. -/
def startsWith (starts : TokenKind → Bool) : Parser Bool := return (← peekKind).any starts

def moveTo (index : Nat) : Parser Unit := modify fun s => { s with index }

def advance : Parser (Option Token) := fun tokens s =>
  match tokens[s.index]? with
  | some token => (.ok (some token), { s with index := s.index + 1 })
  | none => (.ok none, s)

/-- The span of the token before the next one. -/
def lastSpan : Parser Span :=
  read fun tokens s =>
    if s.index = 0 then Span.origin else (tokens[s.index - 1]?.map Token.span).getD Span.origin

/-! ### Nodes -/

/-- A number for a new node. -/
def freshId : Parser NodeId := fun _ s => (.ok s.nextId, { s with nextId := s.nextId + 1 })

/-- A site for a new node with the given span. -/
def newSite (span : Span) : Parser Site := return ⟨← freshId, span⟩

/-- A site for a new node that reaches from a span to the last token. -/
def newSiteFrom (start : Span) : Parser Site := do
  let stop ← lastSpan
  newSite (start.merge stop)

/-! ### Errors -/

/-- An error at the next token. At the end of the input it stands just after the last token. -/
def errorAt (tokens : Array Token) (index : Nat) : SyntaxError :=
  match tokens[index]? with
  | some token => ⟨some token, [], none, index, token.line, token.column⟩
  | none =>
    match tokens.back? with
    | some last => ⟨none, [], none, index, last.span.stop.line + 1, last.span.stop.column + 1⟩
    | none => ⟨none, [], none, index, 1, 1⟩

def errorHere : Parser SyntaxError := read fun tokens s => errorAt tokens s.index

/-- Keeps an error if no other is further into the input. -/
def record (e : SyntaxError) : Parser Unit :=
  modify fun s => { s with furthest := some (SyntaxError.furthest s.furthest e) }

/-- Keeps an error and fails with it. -/
def failWith {α : Type} (e : SyntaxError) : Parser α := do
  record e
  fail e

def unexpected {α : Type} (expected : String) : Parser α := do
  failWith ((← errorHere).expecting expected)

def clearFurthest : Parser Unit := modify fun s => { s with furthest := none }

def report (r : Report) : Parser Unit := modify fun s => { s with reports := s.reports ++ [r] }

/-- Reports the furthest error, forgets it, and gives its position. -/
def commitFurthest : Parser (Option Nat) := fun _ s =>
  match s.furthest with
  | none => (.ok none, s)
  | some e =>
    (.ok (some e.index),
      { s with furthest := none, reports := s.reports ++ [.badSyntax e] })

/-- Enters a type group in the type table and reports the problems with it. -/
def enterTypes (group : TypeGroup) : Parser Unit :=
  modify fun s =>
    let (types, errors) := s.types.enter group
    { s with types, reports := s.reports ++ errors.map .badTypeDefinition }

/-! ### Combinators -/

def tokenWhere (accepts : TokenKind → Bool) (expected : String) : Parser Token := do
  match ← peek with
  | some token =>
    if accepts token.kind then
      let _ ← advance
      pure token
    else unexpected expected
  | none => unexpected expected

def expect (kind : TokenKind) : Parser Token :=
  tokenWhere (· == kind) kind.description

def expectOneOf (kinds : List TokenKind) (expected : String) : Parser Token :=
  tokenWhere kinds.contains expected

/-- Replaces what a failing parser expected. -/
def label {α : Type} (p : Parser α) (name : String) : Parser α := do
  match ← attempt p with
  | .ok a => pure a
  | .error e => failWith { e with expected := [name] }

/-- Reads what the parser reads, or goes back to the start if it fails. -/
def optional {α : Type} (p : Parser α) : Parser (Option α) := do
  let start ← index
  match ← attempt p with
  | .ok a => pure (some a)
  | .error _ =>
    moveTo start
    pure none

/-- Reads items as long as the next token starts one, at most a number of them. -/
def manyUpTo {α : Type} (starts : TokenKind → Bool) (item : Parser α) : Nat → Parser (List α)
  | 0 => pure []
  | n + 1 => do
    if ← startsWith starts then
      let first ← item
      let rest ← manyUpTo starts item n
      pure (first :: rest)
    else pure []

/-- Reads items as long as the next token starts one. Since an item takes the token that starts
it, there are no more items than tokens. -/
def many {α : Type} (starts : TokenKind → Bool) (item : Parser α) : Parser (List α) := do
  manyUpTo starts item (← remaining)

def separated {α : Type} (separator : TokenKind) (item : Parser α) : Parser (List α) := do
  let first ← item
  let rest ← many (· == separator) (do let _ ← expect separator; item)
  pure (first :: rest)

/-- Reads an item between two tokens. -/
def between {α : Type} (opening closing : TokenKind) (item : Parser α) : Parser α := do
  let _ ← expect opening
  let value ← item
  let _ ← expect closing
  pure value

/-! ### Nesting -/

/-- How deep expressions, patterns and types may be nested. -/
def maxNesting : Nat := 256

def tooDeep {α : Type} : Parser α := do
  failWith ((← errorHere).noting ("nesting deeper than " ++ toString maxNesting ++ " levels"))

/-- Runs a parser one level down and comes back up, also when it fails. -/
def counted {α : Type} (p : Parser α) : Parser α := fun tokens s =>
  let (result, s) := p tokens { s with depth := s.depth + 1 }
  (result, { s with depth := s.depth - 1 })

/-- Runs a parser one level down, or fails where nesting is as deep as it may be. -/
def nested {α : Type} (p : Parser α) : Parser α := do
  if (← read fun _ s => s.depth) < maxNesting then counted p else tooDeep

end Parser

end Llama
