import Llama.Binary64.Text
import Llama.Text.Quoted
import Llama.Ty.Basic

/-!
# Constants
-/

namespace Llama

/-- The value of a literal. -/
inductive Const where
  | bool (value : Bool)
  | char (value : Char)
  | int (value : Int)
  | float (value : Binary64)
  | string (value : String)
  | unit
deriving DecidableEq, Repr

namespace Const

def ty : Const → Ty
  | .bool _ => .bool
  | .char _ => .char
  | .int _ => .int
  | .float _ => .float
  | .string _ => .string
  | .unit => .unit

def text : Const → String
  | .bool value => if value then "true" else "false"
  | .char value => Text.quotedChar value
  | .int value => toString value
  | .float value => value.text
  | .string value => Text.quotedString value
  | .unit => "()"

end Const

end Llama
