import Llama.Compilation
import Llama.Sink
import Llama.Tree.Printer

/-!
# The command

`llamac [OPTIONS] [FILE]` compiles a file or the standard input. It prints what is asked for to
the standard output and the problems to the standard error output, and exits with 0 when there
were no errors.
-/

namespace Llama.Command

structure Options where
  /-- The file to be compiled; none or `-` stands for the standard input. -/
  file : Option String
  /-- Print the program as nested lists. -/
  dumpTree : Bool
  /-- Print the constraints. -/
  dumpConstraints : Bool
  /-- Do not analyse the program. -/
  parseOnly : Bool
  /-- Do not print problems. -/
  quiet : Bool
deriving DecidableEq, Repr

def Options.none : Options := ⟨Option.none, false, false, false, false⟩

/-- What a command line asks for. -/
inductive Request where
  | compile (options : Options)
  | version
  | help
  /-- The command line makes no sense. -/
  | misuse
deriving DecidableEq, Repr

/-- Sets an option that may be given once, by its long name. -/
def Options.set? (options : Options) (name : String) : Option Options :=
  if name = "--dump-ast" then
    if options.dumpTree then Option.none else some { options with dumpTree := true }
  else if name = "--dump-constraints" then
    if options.dumpConstraints then Option.none else some { options with dumpConstraints := true }
  else if name = "--parse-only" then
    if options.parseOnly then Option.none else some { options with parseOnly := true }
  else if name = "--quiet" then
    if options.quiet then Option.none else some { options with quiet := true }
  else Option.none

/-- Sets the file, of which there is at most one. Its name is not empty. -/
def Options.setFile? (options : Options) (name : String) : Option Options :=
  if name.isEmpty || options.file.isSome then Option.none
  else some { options with file := some name }

/-- Reads the arguments after `--`, which are all files. -/
def files (options : Options) : List String → Request
  | [] => .compile options
  | arg :: rest =>
    match options.setFile? arg with
    | some options => files options rest
    | none => .misuse

/-- Reads the arguments from left to right. The first one that asks for the version or for help,
or that makes no sense, decides. -/
def request (options : Options) : List String → Request
  | [] => .compile options
  | arg :: rest =>
    match arg.toList with
    | ['-', '-'] => files options rest
    | '-' :: '-' :: _ =>
      if arg = "--version" then .version
      else if arg = "--help" then .help
      else
        match options.set? arg with
        | some options => request options rest
        | none => .misuse
    | '-' :: 'V' :: _ => .version
    | '-' :: 'h' :: _ => .help
    | '-' :: _ :: _ => .misuse
    | _ =>
      match options.setFile? arg with
      | some options => request options rest
      | none => .misuse

/-- The file that has to be read; without one it is the standard input. -/
def Options.path? (options : Options) : Option String :=
  options.file.filter fun name => name != "-"

/-- The name of the source text in messages. -/
def Options.sourceName (options : Options) : String :=
  options.path?.getD standardInputName

/-- Why a file cannot be read. -/
inductive ReadError where
  | notFound
  | isDirectory
  | other (text : String)
deriving DecidableEq, Repr

def ReadError.message : ReadError → String
  | .notFound => "No such file or directory (os error 2)"
  | .isDirectory => "Is a directory (os error 21)"
  | .other text => text

/-- What a command prints and how it exits. -/
structure Outcome where
  stdout : String
  stderr : String
  exit : Nat
deriving DecidableEq, Repr

/-- A failure that ends the command. -/
def Outcome.fatal (message : String) : Outcome := ⟨"", "error: " ++ message ++ "\n", 1⟩

/-- Texts, each followed by a newline. -/
def unlines (lines : List String) : String :=
  String.join (lines.map fun line => line ++ "\n")

/-- What is printed of a compilation. -/
def dump (options : Options) (compilation : Compilation) : String :=
  let tree :=
    match options.dumpTree, compilation.program with
    | true, some program => program.text
    | _, _ => ""
  let constraints :=
    match options.dumpConstraints, compilation.analysis with
    | true, some analysis => unlines (analysis.constraints.toList.map Constraint.text)
    | _, _ => ""
  tree ++ constraints

/-- Compiles a source text, which may have failed to be read. -/
def execute (options : Options) (source : Except ReadError String) : Outcome :=
  match source with
  | .error e => Outcome.fatal ("failed to read " ++ options.sourceName ++ ": " ++ e.message)
  | .ok source =>
    match compile source ⟨options.sourceName, options.parseOnly⟩ with
    | .error e => Outcome.fatal e.message
    | .ok compilation =>
      let sink := if options.quiet then Sink.counter else Sink.printer options.sourceName
      let sink := sink.receiveAll (compilation.reports.map Report.record)
      ⟨dump options compilation, unlines sink.printed, if sink.counts.success then 0 else 1⟩

def versionText : String := "llamac 0.1.0\n"

def usageText : String :=
  unlines
    ["Usage: llamac [OPTIONS] [FILE]",
     "",
     "Options:",
     "      --dump-ast          Print the program as nested lists",
     "      --dump-constraints  Print every type constraint",
     "      --parse-only        Stop after parsing",
     "      --quiet             Do not print diagnostics",
     "  -h, --help              Print help",
     "  -V, --version           Print version"]

/-- Does what a command line asks for, given the source text. -/
def run (request : Request) (source : Options → Except ReadError String) : Outcome :=
  match request with
  | .compile options => execute options (source options)
  | .version => ⟨versionText, "", 0⟩
  | .help => ⟨usageText, "", 0⟩
  | .misuse => ⟨"", usageText, 2⟩

end Llama.Command
