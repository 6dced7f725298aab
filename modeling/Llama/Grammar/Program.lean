import Llama.Grammar.Expr

/-!
# Programs

A program is a sequence of let groups and type groups. When a definition cannot be read, the
error furthest into the input is reported and reading goes on at the next `let` or `type` after
it. A program with a syntax error has no tree.
-/

namespace Llama.Grammar

open Llama.Parser

/-- A constructor with the types of its arguments: `C [of τ1 .. τn]`. -/
def constructorDef (d : Deeper) : Parser ConstructorDef := do
  let (name, start) ← conid
  if ← isAt .kwOf then
    let _ ← expect .kwOf
    let first ← d.ty
    let rest ← many startsType d.ty
    return ⟨← newSiteFrom start, name, first :: rest⟩
  else return ⟨← newSiteFrom start, name, []⟩

/-- A type with its constructors: `t = C1 | C2 ..`. -/
def typeDef (d : Deeper) : Parser TypeDef := do
  let (name, start) ← typeName
  let _ ← expect .equals
  let constructors ← separated .pipe (constructorDef d)
  return ⟨← newSiteFrom start, name, constructors⟩

/-- A type group. It is entered in the type table as soon as it is complete. -/
def typeGroup (d : Deeper) : Parser TypeGroup := do
  let start ← expect .kwType
  let defs ← separated .kwAnd (typeDef d)
  let group : TypeGroup := ⟨← newSiteFrom start.span, defs⟩
  enterTypes group
  pure group

def definition (d : Deeper) : Parser Definition := do
  match ← peekKind with
  | some .kwType => return .types (← typeGroup d)
  | some .kwLet => return .lets (← letGroup d)
  | _ =>
    failWith (((← errorHere).expecting TokenKind.kwLet.description).expecting
      TokenKind.kwType.description)

def startsDefinition : TokenKind → Bool
  | .kwLet | .kwType => true
  | _ => false

/-- Skips tokens up to the next one that starts a definition, at most a number of them. -/
def skipUpTo : Nat → Parser Unit
  | 0 => pure ()
  | n + 1 => do
    match ← peekKind with
    | none => pure ()
    | some kind =>
      if startsDefinition kind then pure ()
      else
        let _ ← advance
        skipUpTo n

/-- Reports the failure of a definition that began at `start`, and goes to the next definition
after it. -/
def recover (start : Nat) (e : SyntaxError) : Parser Unit := do
  if (← read fun _ s => s.furthest).isNone then record e
  let furthest ← commitFurthest
  moveTo (max (furthest.getD start) (start + 1))
  skipUpTo (← remaining)

/-- The definitions that can be read, at most a number of them. -/
def definitionsUpTo (d : Deeper) : Nat → Parser (List Definition)
  | 0 => pure []
  | n + 1 => do
    if (← remaining) = 0 then pure []
    else
      clearFurthest
      let start ← index
      match ← attempt (definition d) with
      | .ok first => return first :: (← definitionsUpTo d n)
      | .error e =>
        recover start e
        definitionsUpTo d n

/-- All definitions of a program that can be read. There are no more than tokens. -/
def definitions (d : Deeper) : Parser (List Definition) := do
  definitionsUpTo d (← remaining)

end Llama.Grammar

namespace Llama

/-- What is read from a list of tokens. -/
structure Parsed where
  /-- The program, if there is no syntax error. -/
  program : Option Program
  /-- The types that are defined. -/
  types : TypeTable
  /-- What is to be reported, in the order in which it was found. -/
  reports : List Report

/-- The syntax errors among the reports. -/
def Parsed.syntaxErrors (parsed : Parsed) : List SyntaxError :=
  parsed.reports.filterMap Report.syntaxError?

def parse (tokens : List Token) : Parsed :=
  let (result, s) :=
    Parser.run (Grammar.definitions Grammar.outermost) tokens.toArray ParserState.initial
  let program := match result with
    | .ok definitions =>
      if s.reports.any fun r => r.syntaxError?.isSome then none
      else some ⟨definitions, s.nextId⟩
    | .error _ => none
  ⟨program, s.types, s.reports⟩

end Llama
