import Llama.Scope.Library

/-!
# Scopes

A symbol table is a stack of scopes above the scope of the library, which is always there. A
lookup goes from the innermost scope outwards and passes over scopes that are hidden. Within
one scope the first definition of a name is kept.
-/

namespace Llama

/-- The names defined together in one part of a program. -/
structure Scope where
  /-- The symbols, in the order of their definition. -/
  symbols : List Symbol
  visible : Bool
  /-- How many scopes lie below. -/
  nesting : Nat
deriving DecidableEq, Repr

namespace Scope

def empty (nesting : Nat) : Scope := ⟨[], true, nesting⟩

def get? (scope : Scope) (name : String) : Option Symbol :=
  scope.symbols.find? fun symbol => symbol.name == name

def add (scope : Scope) (symbol : Symbol) : Scope :=
  { scope with symbols := scope.symbols ++ [symbol] }

end Scope

/-- The stack of open scopes. -/
structure SymbolTable where
  /-- The scopes above the library, innermost first. -/
  inner : List Scope
  library : Scope
deriving DecidableEq, Repr

namespace SymbolTable

/-- Only the scope of the library is open. -/
def initial : SymbolTable := ⟨[], ⟨Library.symbols, true, 0⟩⟩

/-- All open scopes, innermost first. -/
def scopes (table : SymbolTable) : List Scope := table.inner ++ [table.library]

def depth (table : SymbolTable) : Nat := table.inner.length + 1

def current (table : SymbolTable) : Scope :=
  table.inner.headD table.library

def modifyCurrent (table : SymbolTable) (f : Scope → Scope) : SymbolTable :=
  match table.inner with
  | [] => { table with library := f table.library }
  | scope :: rest => { table with inner := f scope :: rest }

def openScope (table : SymbolTable) : SymbolTable :=
  { table with inner := Scope.empty table.depth :: table.inner }

/-- Closes the innermost scope. The scope of the library cannot be closed. -/
def closeScope? (table : SymbolTable) : Option (Scope × SymbolTable) :=
  match table.inner with
  | [] => none
  | scope :: rest => some (scope, { table with inner := rest })

/-- Closes the innermost scope if it is not that of the library. -/
def closeScope (table : SymbolTable) : SymbolTable :=
  { table with inner := table.inner.tail }

/-- Shows or hides the innermost scope. -/
def setVisible (table : SymbolTable) (visible : Bool) : SymbolTable :=
  table.modifyCurrent fun scope => { scope with visible }

/-- Defines a name in the innermost scope, hidden or not. -/
def insert (table : SymbolTable) (symbol : Symbol) : Except DuplicateName SymbolTable :=
  match table.current.get? symbol.name with
  | some previous => .error ⟨symbol.name, symbol.span, previous.span⟩
  | none => .ok (table.modifyCurrent fun scope => scope.add symbol)

/-- The definition of a name in the innermost visible scope that has one. -/
def lookup? (table : SymbolTable) (name : String) : Option Symbol :=
  (table.scopes.filter Scope.visible).findSome? fun scope => scope.get? name

end SymbolTable

end Llama
