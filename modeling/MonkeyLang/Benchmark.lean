import MonkeyLang.Session

/-!
# A benchmark

Computing a Fibonacci number by its defining equation makes many calls and little else.  The
program text is fixed but for the number asked for.

The number is an unsigned 32-bit one, whereas the language has signed 64-bit words, so the numeral
always fits.  The result fits up to the number 92 and is wrapped from there on; `measure_fibonacci`
says which number comes out for all of them, whether or not a machine could wait for it.
-/

set_option autoImplicit false

namespace MonkeyLang
namespace Benchmark

/-- The function to be measured. -/
def fibonacci : String :=
  "let fibonacci = fn(x) \x7b\n" ++
  "if (x == 0) \x7b 0\n" ++
  "     \x7d else \x7b\n" ++
  "       if (x == 1) \x7b\n" ++
  "         return 1;\n" ++
  "       \x7d else \x7b\n" ++
  "         fibonacci(x - 1) + fibonacci(x - 2);\n" ++
  "       \x7d\n" ++
  "\x7d \x7d;"

/-- The program that computes the `n`-th Fibonacci number. -/
def text (n : Nat) : String := fibonacci ++ "\nfibonacci(" ++ Decimal.ofNat n ++ ");"

/-- The least natural number that is no unsigned 32-bit integer. -/
def numberLimit : Nat := 4294967296

/-- The number that an argument asks for: a 32-bit numeral, which may have a plus sign. -/
def number? (argument : String) : Option Nat :=
  let digits :=
    match argument.toList with
    | '+' :: rest => rest
    | cs => cs
  if digits ≠ [] ∧ digits.all Char.isDigit = true ∧ Decimal.value digits < numberLimit then
    some (Decimal.value digits)
  else
    none

/-- The number that the arguments ask for: the first one counts, and 25 stands for all that is no
number. -/
def number (arguments : List String) : Nat := (arguments.head?.bind number?).getD 25

/-- What the benchmark says about a result, before it says how long it took. -/
def summary (n : Nat) (value : Value) : String :=
  "engine=eval, n=" ++ Decimal.ofNat n ++ ", result=" ++ value.display

/-- Run the benchmark on a new machine. -/
def measure (depth n : Nat) : Outcome RunError Machine Value :=
  let (scope, m) := Machine.initial.newScope none
  run depth scope (text n) m

end Benchmark
end MonkeyLang
