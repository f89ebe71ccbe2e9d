import MonkeyLang.Program.Render
import MonkeyLang.Value

/-!
# The text of a value

How values are shown to the user.  Strings are shown without quotes, and the pairs of a hash in the
order of their texts, which need not be the order of their keys: the texts of `10` and `9` are in
the other order than the numbers.

The text of a value is not meant to be read back in general.  A string could be anything, a
function has lost its scope, and all builtin functions look alike.  For values that are made of
integers and truth values it does read back, but for one integer: see `run_display`.

Sorting is by `List.mergeSort`.  Two pairs can have the same text, as the keys `1` and `"1"` do,
and then their order does not show.
-/

set_option autoImplicit false

namespace MonkeyLang

/-- The text of a function. -/
def Closure.display (f : Closure) : String :=
  "fn" ++ parameterText f.parameters ++ " " ++ f.body.render

/-- The text of a key. -/
def Key.display : Key → String
  | int n => Decimal.ofInt n.toInt
  | bool b => boolText b
  | string text => text

/-- Texts in increasing order, character by character. -/
def sortedTexts (texts : List String) : List String :=
  texts.mergeSort fun a b ↦ decide (a ≤ b)

mutual

/-- The text of a value. -/
def Value.display : Value → String
  | .int n => Decimal.ofInt n.toInt
  | .bool b => boolText b
  | .string text => text
  | .array elements => "[" ++ separated ", " (displayAll elements) ++ "]"
  | .hash entries => "\x7b" ++ separated ", " (sortedTexts (displayEntries entries)) ++ "\x7d"
  | .function f => f.display
  | .builtin _ => "builtin function"
  | .null => "null"

/-- The texts of values. -/
def displayAll : List Value → List String
  | [] => []
  | v :: rest => v.display :: displayAll rest

/-- The texts of the pairs of a hash. -/
def displayEntries : List (Key × Value) → List String
  | [] => []
  | (k, v) :: rest => (k.display ++ ": " ++ v.display) :: displayEntries rest

end

end MonkeyLang
