import Llama.Span
import Llama.Token.Kind

/-!
# Tokens

A token is a kind with its text and its place. Tokens that are cut from a text have the span
of the text; tokens that are made by hand get one from a line and a column.
-/

namespace Llama

/-- A piece of source text as the grammar sees it. -/
structure Token where
  kind : TokenKind
  value : String
  /-- Line of the first character, counted from one. -/
  line : Nat
  /-- Column of the first character, counted from one. -/
  column : Nat
  span : Span
deriving DecidableEq, Repr

namespace Token

/-- A token that was cut from a text. -/
def ofSpan (kind : TokenKind) (value : String) (span : Span) : Token where
  kind
  value
  line := span.start.line + 1
  column := span.start.column + 1
  span

/-- A token at a line and a column that are counted from one. It ends after as many columns
as its text has characters. -/
def made (kind : TokenKind) (value : String) (line column : Nat) : Token where
  kind
  value
  line
  column
  span := ⟨⟨line - 1, column - 1⟩, ⟨line - 1, column - 1 + value.length⟩⟩

/-- A keyword or symbol at a line and a column. -/
def terminal (kind : TokenKind) (line column : Nat) : Token :=
  made kind (kind.text.getD "") line column

end Token

end Llama
