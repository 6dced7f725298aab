/-!
# Places in a source text

Lines and columns are counted from zero, and a span ends just before its end.
-/

namespace Llama

/-- A line and a column, both counted from zero. -/
structure Place where
  line : Nat
  column : Nat
deriving DecidableEq, Repr, Inhabited

/-- A stretch of source text, without its end. -/
structure Span where
  start : Place
  stop : Place
deriving DecidableEq, Repr

namespace Span

/-- The empty span at the start of a text. -/
def origin : Span := ⟨⟨0, 0⟩, ⟨0, 0⟩⟩

instance : Inhabited Span := ⟨origin⟩

/-- From the start of one span to the end of another. -/
def merge (first last : Span) : Span := ⟨first.start, last.stop⟩

@[simp] theorem merge_start (a b : Span) : (a.merge b).start = a.start := rfl

@[simp] theorem merge_stop (a b : Span) : (a.merge b).stop = b.stop := rfl

/-- The start of a span as `line:column`, both counted from one. -/
def location (s : Span) : String :=
  toString (s.start.line + 1) ++ ":" ++ toString (s.start.column + 1)

end Span

end Llama
