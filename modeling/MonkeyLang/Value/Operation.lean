import MonkeyLang.Eval.Error

/-!
# Operations on values

What operators, indexing and the builtin functions do to values that were evaluated already.  None
of them looks at anything but its operands, and none of them can stop for a reason other than an
error.  So they are plain functions into `Except`, apart from the machine, and an evaluation lifts
their results with `Eval.ofExcept`.

Integers are 64-bit words: sums, differences, products and negations wrap around, and quotients are
rounded toward zero, with the one quotient that does not fit wrapping around as well.

## What does not fail

Several questions that have no good answer are answered with `null`: an index outside of an array,
an index into an array that is no integer, a key that a hash does not have, the first element of an
empty array.  An index that cannot be a key is an error with a hash, but not with an array, where
no index is ever refused.

`==` between two arrays, two hashes or two functions is false, even for a value and itself.  It
compares integers, truth values and `null`, and between two strings it is an error, as is every
operator but `+`.  A host compares values by another rule: see `Value.same`.
-/

set_option autoImplicit false

namespace MonkeyLang

/-! ## Operators -/

/-- An operator before its operand. -/
def applyUnary (op : Operator) (operand : Value) : Except EvalError Value :=
  match op, operand with
  | .bang, v => .ok (.bool (!v.truthy))
  | .minus, .int n => .ok (.int (-n))
  | op, v => .error (.unknownUnary op v.type)

/-- An operator between two integers. -/
def applyToInts (op : Operator) (m n : Int64) : Except EvalError Value :=
  match op with
  | .plus => .ok (.int (m + n))
  | .minus => .ok (.int (m - n))
  | .asterisk => .ok (.int (m * n))
  | .slash => if n = 0 then .error .divisionByZero else .ok (.int (m / n))
  | .less => .ok (.bool (decide (m < n)))
  | .greater => .ok (.bool (decide (n < m)))
  | .equal => .ok (.bool (m == n))
  | .notEqual => .ok (.bool (m != n))
  | .bang => .error (.unsupported .integer .bang .integer)

/-- An operator between two strings. -/
def applyToStrings (op : Operator) (a b : String) : Except EvalError Value :=
  match op with
  | .plus => .ok (.string (a ++ b))
  | op => .error (.unsupported .string op .string)

/-- Whether two values are the same truth value, or both `null`. -/
def sameSingleton : Value → Value → Bool
  | .bool a, .bool b => a == b
  | .null, .null => true
  | _, _ => false

/-- An operator between its operands. -/
def applyBinary (op : Operator) (left right : Value) : Except EvalError Value :=
  match left, right with
  | .int m, .int n => applyToInts op m n
  | .string a, .string b => applyToStrings op a b
  | left, right =>
    match op with
    | .equal => .ok (.bool (sameSingleton left right))
    | .notEqual => .ok (.bool (!sameSingleton left right))
    | op => .error (.unsupported left.type op right.type)

/-! ## Indexing -/

/-- The element of an array at an index; `null` outside the array. -/
def elementAt (elements : List Value) (i : Int64) : Value :=
  if i < 0 then .null else elements.getD i.toInt.toNat .null

/-- The value of a key in a hash; `null` if the key is missing. -/
def entryAt (entries : List (Key × Value)) (k : Key) : Value :=
  (Dict.get? entries k).getD .null

/-- The key that a value is, or the error that it is none. -/
def requireKey (v : Value) : Except EvalError Key :=
  match v.key? with
  | some k => .ok k
  | none => .error (.notHashable v.type)

/-- Indexing.  An array has no element at an index that is no integer. -/
def applyIndex (collection position : Value) : Except EvalError Value :=
  match collection, position with
  | .array elements, .int i => .ok (elementAt elements i)
  | .array _, _ => .ok .null
  | .hash entries, v =>
    match requireKey v with
    | .ok k => .ok (entryAt entries k)
    | .error e => .error e
  | v, _ => .error (.notIndexable v.type)

/-! ## Builtin functions -/

/-- The elements of an argument that has to be an array. -/
def requireArray (b : Builtin) (v : Value) : Except EvalError (List Value) :=
  match v with
  | .array elements => .ok elements
  | v => .error (.argumentMustBe b .array v.type)

/-- The number of elements of an array, or of bytes of a string. -/
def lengthOf (v : Value) : Except EvalError Value :=
  match v with
  | .string text => .ok (.int (Int64.ofNat text.utf8ByteSize))
  | .array elements => .ok (.int (Int64.ofNat elements.length))
  | v => .error (.unsupportedArgument .len v.type)

/-- All elements but the first one; `null` if there is none. -/
def withoutFirst : List Value → Value
  | [] => .null
  | _ :: rest => .array rest

/-- A builtin function on one argument, or the error that it takes another number of them. -/
def withOne (arguments : List Value) (f : Value → Except EvalError Value) :
    Except EvalError Value :=
  match arguments with
  | [v] => f v
  | vs => .error (.wrongArity vs.length 1)

/-- What a builtin function gives for its arguments. -/
def Builtin.result (b : Builtin) (arguments : List Value) : Except EvalError Value :=
  match b with
  | .len => withOne arguments lengthOf
  | .first => withOne arguments fun v ↦ (requireArray .first v).map fun vs ↦ vs.headD .null
  | .last => withOne arguments fun v ↦ (requireArray .last v).map fun vs ↦ vs.getLastD .null
  | .rest => withOne arguments fun v ↦ (requireArray .rest v).map withoutFirst
  | .push =>
    match arguments with
    | [v, new] => (requireArray .push v).map fun vs ↦ .array (vs ++ [new])
    | vs => .error (.wrongArity vs.length 2)
  | .puts => .ok .null

end MonkeyLang
