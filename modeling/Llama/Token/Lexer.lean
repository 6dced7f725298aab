import Llama.Token.Basic
import Llama.Token.Comment
import Llama.Token.Lexeme

/-!
# Cutting a text into tokens

Comments are blanked out first. What is left is cut from the front: white space is skipped and
the longest lexeme becomes the next token. Columns count bytes.
-/

namespace Llama

/-- A text in which no lexeme starts at some place. -/
structure LexError where
  /-- The whole text, without its comments. -/
  text : String
  /-- The byte at which reading stopped. -/
  offset : Nat
  /-- What is left from there on. -/
  rest : String
deriving DecidableEq, Repr

def LexError.message (e : LexError) : String :=
  "Failed to lex '" ++ e.text ++ "' at position " ++ toString e.offset ++ "; remaining '" ++
    e.rest ++ "'"

namespace Token

/-- The characters that separate tokens: space, tab, newline, carriage return, form feed. -/
def isBlank (c : Char) : Bool :=
  c == ' ' || c == '\t' || c == '\n' || c == '\r' || c == '\x0c'

/-- The number of bytes of a text. -/
def byteSize (cs : List Char) : Nat :=
  cs.foldl (fun size c => size + c.utf8Size) 0

/-- The place after a blank. -/
def skipBlank (place : Place) (c : Char) : Place :=
  if c = '\n' then ⟨place.line + 1, 0⟩ else ⟨place.line, place.column + 1⟩

/-- The token of a lexeme that starts at the given place. Keywords and symbols have their
spelling as text. -/
def ofLexeme (place : Place) (kind : TokenKind) (lexeme : List Char) : Token :=
  ofSpan kind (kind.text.getD (String.ofList lexeme))
    ⟨place, ⟨place.line, place.column + byteSize lexeme⟩⟩

/-- Cuts an input that starts at the given place. A failure leaves what could not be cut. -/
def scan (place : Place) : List Char → Except (List Char) (List Token)
  | [] => .ok []
  | c :: cs =>
    if isBlank c then scan (skipBlank place c) cs
    else
      match Lexeme.longest? (c :: cs) with
      | none => .error (c :: cs)
      | some (kind, lexeme) =>
        let token := ofLexeme place kind lexeme
        match scan token.span.stop (cs.drop (lexeme.length - 1)) with
        | .ok tokens => .ok (token :: tokens)
        | .error rest => .error rest
termination_by input => input.length
decreasing_by
  · simp
  · simp only [List.length_drop, List.length_cons]
    omega

/-- The tokens of a source text. -/
def lex (source : String) : Except LexError (List Token) :=
  let text := Comment.blank source
  match scan ⟨0, 0⟩ text.toList with
  | .ok tokens => .ok tokens
  | .error rest =>
    .error ⟨text, byteSize text.toList - byteSize rest, String.ofList rest⟩

end Token

end Llama
