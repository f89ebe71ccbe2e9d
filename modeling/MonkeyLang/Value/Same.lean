import MonkeyLang.Value

/-!
# Equality of values from outside

How a host program compares values.  Data is compared by content, to any depth.  A builtin function
is its name, and a function of the language is the literal and the scope that it was made from:
neither the text of the body nor the parameters count.

Literals are told apart by the program that they stand in and by their place there.  A program that
is kept and evaluated twice has the same literals both times.  A text that is read twice makes two
programs, and no function of one equals any function of the other.

The operator `==` of the language is a different, coarser thing.
-/

set_option autoImplicit false

namespace MonkeyLang

/-- Whether two functions were made from the same literal in the same scope. -/
def Closure.same (f g : Closure) : Bool := f.origin == g.origin && f.scope == g.scope

mutual

/-- Whether two values are equal. -/
def Value.same : Value → Value → Bool
  | .int m, .int n => m == n
  | .bool a, .bool b => a == b
  | .string a, .string b => a == b
  | .array as, .array bs => sameValues as bs
  | .hash as, .hash bs => sameEntries as bs
  | .function f, .function g => f.same g
  | .builtin a, .builtin b => a == b
  | .null, .null => true
  | _, _ => false
termination_by structural v => v

/-- Whether two lists hold equal values. -/
def sameValues : List Value → List Value → Bool
  | [], [] => true
  | a :: as, b :: bs => a.same b && sameValues as bs
  | _, _ => false
termination_by structural vs => vs

/-- Whether two hashes have the same keys with equal values. -/
def sameEntries : List (Key × Value) → List (Key × Value) → Bool
  | [], [] => true
  | (j, a) :: as, (k, b) :: bs => j == k && a.same b && sameEntries as bs
  | _, _ => false
termination_by structural es => es

end

/-- Whether two lookups agree: both found nothing, or both found equal values. -/
def sameLookup : Option Value → Option Value → Bool
  | none, none => true
  | some a, some b => a.same b
  | _, _ => false

end MonkeyLang
