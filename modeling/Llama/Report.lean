import Llama.Parser.Error
import Llama.Scope.Symbol
import Llama.Ty.Error

/-!
# Reports

Everything that can be said about a program, each as its cause. One function gives the wording.
-/

namespace Llama

/-- A problem found while walking through a program. -/
inductive SemanticError where
  | unknownIdentifier (name : String) (span : Span)
  | unknownConstructor (name : String) (span : Span)
  | constructorArity (name : String) (expected found : Nat) (span : Span)
  | dimensionOutOfRange (name : String) (dimension : Int) (span : Span)
  /-- The type of the named thing is not well formed. -/
  | invalidType (cause : InvalidType) (name : String) (span : Span)
deriving DecidableEq, Repr

namespace SemanticError

def span : SemanticError → Span
  | .unknownIdentifier _ span | .unknownConstructor _ span | .constructorArity _ _ _ span
  | .dimensionOutOfRange _ _ span | .invalidType _ _ span => span

def detail : SemanticError → String
  | .unknownIdentifier name _ => "Unknown identifier: " ++ name
  | .unknownConstructor name _ => "Unknown constructor: " ++ name
  | .constructorArity name expected found _ =>
    "Constructor " ++ name ++ " expects " ++ toString expected ++ " argument(s), found " ++
      toString found
  | .dimensionOutOfRange name dimension _ =>
    "Dimension " ++ toString dimension ++ " of " ++ name ++ " is out of range"
  | .invalidType cause name _ => cause.message ++ " (type of " ++ name ++ ")"

def message (e : SemanticError) : String :=
  e.span.location ++ ": " ++ e.detail

end SemanticError

/-- How serious a record is. -/
inductive Severity where
  | error | warning | info | debug
deriving DecidableEq, Repr

/-- Something to be said about a program. -/
inductive Report where
  | badSyntax (e : SyntaxError)
  | badTypeDefinition (e : TypeError)
  | duplicateName (e : DuplicateName)
  | semantic (e : SemanticError)
  /-- A parameter has the name of its function. -/
  | parameterNamedAsFunction (name : String) (span : Span)
deriving DecidableEq, Repr

namespace Report

/-- Only the last sort of report is a warning. -/
def severity : Report → Severity
  | .badSyntax _ | .badTypeDefinition _ | .duplicateName _ | .semantic _ => .error
  | .parameterNamedAsFunction _ _ => .warning

def message : Report → String
  | .badSyntax e => e.message
  | .badTypeDefinition e => e.message
  | .duplicateName e => e.message
  | .semantic e => e.message
  | .parameterNamedAsFunction name span =>
    span.location ++ ": Parameter " ++ name ++ " has the same name as its function"

def syntaxError? : Report → Option SyntaxError
  | .badSyntax e => some e
  | _ => none

end Report

end Llama
