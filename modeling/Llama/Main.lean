import Llama.Command

/-!
# The program

Reads the source text and does what the command line asks for.
-/

namespace Llama.Command

/-- Reads the source text that the options name. -/
def readSource (options : Options) : IO (Except ReadError String) := do
  match options.path? with
  | some path =>
    try
      return .ok (← IO.FS.readFile path)
    catch e =>
      match e with
      | .noFileOrDirectory _ _ _ => return .error .notFound
      | .inappropriateType _ _ _ => return .error .isDirectory
      | e => return .error (.other (toString e))
  | none => return .ok (← (← IO.getStdin).readToEnd)

end Llama.Command

open Llama.Command in
def main (args : List String) : IO UInt32 := do
  let request := request Options.none args
  let source ← match request with
    | .compile options => readSource options
    | _ => pure (.ok "")
  let outcome := run request fun _ => source
  IO.print outcome.stdout
  IO.eprint outcome.stderr
  return outcome.exit.toUInt32
