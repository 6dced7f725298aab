import Llama.Scope.Symbol

/-!
# The library

The functions that every program may use, with their types.
-/

namespace Llama.Library

/-- The names of the library and their types. -/
def signatures : List (String × Ty) :=
  [("print_int", .func .int .unit),
   ("print_bool", .func .bool .unit),
   ("print_char", .func .char .unit),
   ("print_float", .func .float .unit),
   ("print_string", .func .string .unit),
   ("read_int", .func .unit .int),
   ("read_bool", .func .unit .bool),
   ("read_char", .func .unit .char),
   ("read_float", .func .unit .float),
   ("read_string", .func .unit .string),
   ("abs", .func .int .int),
   ("fabs", .func .float .float),
   ("sqrt", .func .float .float),
   ("sin", .func .float .float),
   ("cos", .func .float .float),
   ("tan", .func .float .float),
   ("atan", .func .float .float),
   ("exp", .func .float .float),
   ("ln", .func .float .float),
   ("pi", .func .unit .float),
   ("incr", .func (.ref .int) .unit),
   ("decr", .func (.ref .int) .unit),
   ("float_of_int", .func .int .float),
   ("int_of_float", .func .float .int),
   ("round", .func .float .int),
   ("int_of_char", .func .char .int),
   ("char_of_int", .func .int .char)]

def symbols : List Symbol :=
  signatures.map fun (name, ty) => ⟨name, .library, some ty, none, Span.origin⟩

end Llama.Library
