import Llama.Text.Alphanumeric

/-!
# Blanking out comments

A comment reaches from `--` to the end of its line, or from `(*` to the `*)` that closes it;
the second kind nests and may be left open at the end of the text. Each character of a comment
becomes a space and newlines stay, so that all that is left keeps its place. Inside a
character or string literal no comment starts.
-/

namespace Llama.Comment

/-- Where in a text the next character stands. -/
inductive Region where
  /-- Among tokens, after the given character. -/
  | code (before : Option Char)
  /-- Inside block comments, of which `nested + 1` are open. -/
  | block (nested : Nat)
  /-- In a comment that ends with its line. -/
  | line
  /-- In a literal that `quote` closes. -/
  | literal (quote : Char)
deriving DecidableEq, Repr

/-- A single quote after one of these characters belongs to a name and opens no literal. -/
def continuesName : Option Char → Bool
  | some c => Text.isAlphanumeric c || c == '_' || c == '\''
  | none => false

/-- Blanks out the comments of a text that starts in the given region. -/
def blankFrom : Region → List Char → List Char
  | _, [] => []
  | .code _, '(' :: '*' :: cs => ' ' :: ' ' :: blankFrom (.block 0) cs
  | .code _, '-' :: '-' :: cs => ' ' :: ' ' :: blankFrom .line cs
  | .code before, c :: cs =>
    if c = '"' || (c = '\'' && !continuesName before) then c :: blankFrom (.literal c) cs
    else c :: blankFrom (.code (some c)) cs
  | .block nested, '(' :: '*' :: cs => ' ' :: ' ' :: blankFrom (.block (nested + 1)) cs
  | .block 0, '*' :: ')' :: cs => ' ' :: ' ' :: blankFrom (.code (some ')')) cs
  | .block (nested + 1), '*' :: ')' :: cs => ' ' :: ' ' :: blankFrom (.block nested) cs
  | .block nested, c :: cs => (if c = '\n' then '\n' else ' ') :: blankFrom (.block nested) cs
  | .line, c :: cs =>
    if c = '\n' then '\n' :: blankFrom (.code (some '\n')) cs else ' ' :: blankFrom .line cs
  | .literal quote, '\\' :: c :: cs => '\\' :: c :: blankFrom (.literal quote) cs
  | .literal quote, c :: cs =>
    if c = quote || c = '\n' then c :: blankFrom (.code (some c)) cs
    else c :: blankFrom (.literal quote) cs

def blank (source : String) : String :=
  String.ofList (blankFrom (.code none) source.toList)

end Llama.Comment
