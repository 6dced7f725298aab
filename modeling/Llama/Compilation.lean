import Llama.Analysis.Program
import Llama.Grammar.Program
import Llama.Token.Lexer

/-!
# Compiling a source text

A source text is cut into tokens, read as a program and analysed. Only a text that cannot be cut
into tokens is a failure; all other problems are reports.
-/

namespace Llama

structure CompileOptions where
  /-- The name of the text in messages. -/
  fileName : String
  /-- Whether to stop when the program is read. -/
  parseOnly : Bool

/-- The name of a text that has none. -/
def standardInputName : String := "<stdin>"

def CompileOptions.default : CompileOptions := ⟨standardInputName, false⟩

/-- A text of the given name that cannot be cut into tokens. -/
structure CompileError where
  fileName : String
  cause : LexError

def CompileError.message (e : CompileError) : String :=
  "failed to tokenize " ++ e.fileName ++ ": " ++ e.cause.message

/-- What is known of a source text. -/
structure Compilation where
  /-- The program, if there is no syntax error. -/
  program : Option Program
  /-- The analysis of the program, if it was asked for. -/
  analysis : Option Analysis
  types : TypeTable
  /-- What is to be reported, in the order in which it was found. -/
  reports : List Report

/-- Reads and perhaps analyses tokens. -/
def Compilation.ofTokens (tokens : List Token) (parseOnly : Bool) : Compilation :=
  let parsed := parse tokens
  match parsed.program with
  | some program =>
    if parseOnly then ⟨some program, none, parsed.types, parsed.reports⟩
    else
      let (analysis, types, reports) :=
        program.analyze parsed.types Inference.firstTag Solver.unsolved
      ⟨some program, some analysis, types, parsed.reports ++ reports⟩
  | none => ⟨none, none, parsed.types, parsed.reports⟩

def compile (source : String) (options : CompileOptions) : Except CompileError Compilation :=
  match Token.lex source with
  | .ok tokens => .ok (Compilation.ofTokens tokens options.parseOnly)
  | .error cause => .error ⟨options.fileName, cause⟩

end Llama
