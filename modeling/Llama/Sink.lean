import Llama.Report
import Llama.Text.Quoted

/-!
# Sinks

A sink receives records and counts the errors and warnings among them. It may also keep the
records, or turn errors and warnings into lines that begin with the name of a file.
-/

namespace Llama

/-- A message and how serious it is. -/
structure Record where
  severity : Severity
  message : String
deriving DecidableEq, Repr

def Report.record (r : Report) : Record := ⟨r.severity, r.message⟩

/-- How many errors and warnings were received. -/
structure Counts where
  errors : Nat
  warnings : Nat
deriving DecidableEq, Repr

namespace Counts

def zero : Counts := ⟨0, 0⟩

/-- Counts one more record. Only errors and warnings are counted. -/
def add (counts : Counts) : Severity → Counts
  | .error => { counts with errors := counts.errors + 1 }
  | .warning => { counts with warnings := counts.warnings + 1 }
  | .info | .debug => counts

/-- There are no errors. -/
def success (counts : Counts) : Bool := counts.errors == 0

/-- There are neither errors nor warnings. -/
def perfectSuccess (counts : Counts) : Bool := counts.errors == 0 && counts.warnings == 0

end Counts

/-- What a sink does with a record besides counting it. -/
inductive Keeping where
  /-- It forgets the record. -/
  | nothing
  /-- It keeps the record. -/
  | records (kept : Array Record)
  /-- It prints errors and warnings under the name of a file. -/
  | lines (fileName : String) (printed : Array String)

/-- Something that receives records. -/
structure Sink where
  counts : Counts
  keeping : Keeping

/-- The line that is printed for a record; none is printed for minor ones. -/
def Record.line? (fileName : String) (r : Record) : Option String :=
  match r.severity with
  | .error => some ("ERROR " ++ Text.shown (fileName ++ ": " ++ r.message))
  | .warning => some ("WARN " ++ Text.shown (fileName ++ ": " ++ r.message))
  | .info | .debug => none

def Keeping.add (r : Record) : Keeping → Keeping
  | .nothing => .nothing
  | .records kept => .records (kept.push r)
  | .lines fileName printed =>
    match r.line? fileName with
    | some line => .lines fileName (printed.push line)
    | none => .lines fileName printed

namespace Sink

def counter : Sink := ⟨Counts.zero, .nothing⟩

def buffer : Sink := ⟨Counts.zero, .records #[]⟩

def printer (fileName : String) : Sink := ⟨Counts.zero, .lines fileName #[]⟩

def receive (sink : Sink) (r : Record) : Sink :=
  ⟨sink.counts.add r.severity, sink.keeping.add r⟩

def receiveAll (sink : Sink) (rs : List Record) : Sink := rs.foldl receive sink

/-- Sets the counts back to zero and forgets the records. Lines that are printed stay. -/
def clear (sink : Sink) : Sink :=
  match sink.keeping with
  | .records _ => ⟨Counts.zero, .records #[]⟩
  | keeping => ⟨Counts.zero, keeping⟩

def kept (sink : Sink) : List Record :=
  match sink.keeping with
  | .records kept => kept.toList
  | _ => []

def printed (sink : Sink) : List String :=
  match sink.keeping with
  | .lines _ printed => printed.toList
  | _ => []

end Sink

end Llama
