import MonkeyLang.Value

/-!
# What can go wrong in a run

The causes that end a run with an error.  `EvalError.message` is the only place that knows the
wording.

An error carries the types of the operands that it is about, not their values, and no place.  So
errors can be compared, two runs on different machines can have equal errors, and no function gets
out of a run inside of an error.  The names in errors are those of the program, and a builtin
function is named by the constructor that stands for it.

Whether operands of one type or of two are at fault makes two different errors;
`EvalError.unsupported` chooses between them.
-/

set_option autoImplicit false

namespace MonkeyLang

/-- The ways in which evaluation can fail. -/
inductive EvalError where
  /-- Nothing is bound to the name. -/
  | identifierNotFound (name : String)
  /-- The operator does not go before an operand of this type. -/
  | unknownUnary (operator : Operator) (operand : ValueType)
  /-- The operator does not go between two operands of this type. -/
  | unknownBinary (left : ValueType) (operator : Operator) (right : ValueType)
  /-- The operator does not go between operands of two different types. -/
  | typeMismatch (left : ValueType) (operator : Operator) (right : ValueType)
  /-- The divisor is zero. -/
  | divisionByZero
  /-- A value of this type cannot be called. -/
  | notAFunction (type : ValueType)
  /-- The function takes another number of arguments. -/
  | wrongArity (got want : Nat)
  /-- The builtin function does not take an argument of this type. -/
  | unsupportedArgument (builtin : Builtin) (type : ValueType)
  /-- The builtin function takes an argument of one type only. -/
  | argumentMustBe (builtin : Builtin) (expected found : ValueType)
  /-- A value of this type has no elements to index. -/
  | notIndexable (type : ValueType)
  /-- A value of this type cannot be a key of a hash. -/
  | notHashable (type : ValueType)
deriving DecidableEq

namespace EvalError

/-- An operator that does not go between operands of these types. -/
def unsupported (left : ValueType) (operator : Operator) (right : ValueType) : EvalError :=
  if left = right then unknownBinary left operator right else typeMismatch left operator right

/-- The error as the user sees it. -/
def message : EvalError → String
  | identifierNotFound name => "identifier not found: " ++ name
  | unknownUnary op operand => "unknown operator: " ++ op.spelling ++ operand.name
  | unknownBinary left op right =>
    "unknown operator: " ++ left.name ++ " " ++ op.spelling ++ " " ++ right.name
  | typeMismatch left op right =>
    "type mismatch: " ++ left.name ++ " " ++ op.spelling ++ " " ++ right.name
  | divisionByZero => "division by zero"
  | notAFunction type => "not a function: " ++ type.name
  | wrongArity got want =>
    "wrong number of arguments. got=" ++ Decimal.ofNat got ++ ", want=" ++ Decimal.ofNat want
  | unsupportedArgument builtin type =>
    "argument to `" ++ builtin.name ++ "` not supported, got " ++ type.name
  | argumentMustBe builtin expected found =>
    "argument to `" ++ builtin.name ++ "` must be " ++ expected.name ++ ", got " ++ found.name
  | notIndexable type => "index operator not supported: " ++ type.name
  | notHashable type => "unusable as hash key: " ++ type.name

end EvalError

end MonkeyLang
