/-!
# Decimal numerals

Numbers are written without superfluous zeros and read digit by digit, the most significant one
first.  `Decimal.value_digits` says that reading undoes writing; the converse fails exactly for
numerals with superfluous zeros in front, which reading accepts.

Writing and reading are defined on lists of characters and on natural numbers without bound.  What
is too large is decided where a numeral is used, and not here: the reader of programs knows signed
64-bit integers, and the command line of the benchmark knows unsigned 32-bit ones.

`Nat.repr` writes the same text.  A definition of its own is easier to reason about, because it
goes through the number one digit at a time, from the same end as the reading does.
-/

set_option autoImplicit false

namespace MonkeyLang
namespace Decimal

/-- The character that writes the digit `d`, for `d < 10`. -/
def digit (d : Nat) : Char := Char.ofNat ('0'.toNat + d)

/-- The shortest numeral of `n`, most significant digit first. -/
def digits (n : Nat) : List Char :=
  if n < 10 then [digit n] else digits (n / 10) ++ [digit (n % 10)]
termination_by n
decreasing_by omega

/-- The number that a numeral stands for. -/
def value (numeral : List Char) : Nat :=
  numeral.foldl (fun n c ↦ 10 * n + (c.toNat - '0'.toNat)) 0

/-- The decimal text of a natural number. -/
def ofNat (n : Nat) : String := String.ofList (digits n)

/-- The decimal text of an integer, with a minus sign in front of a negative one. -/
def ofInt (n : Int) : String :=
  if n < 0 then "-" ++ ofNat n.natAbs else ofNat n.natAbs

theorem toNat_digit {d : Nat} (h : d < 10) : (digit d).toNat = '0'.toNat + d := by
  have hd : d = 0 ∨ d = 1 ∨ d = 2 ∨ d = 3 ∨ d = 4 ∨ d = 5 ∨ d = 6 ∨ d = 7 ∨ d = 8 ∨ d = 9 := by
    omega
  rcases hd with rfl | rfl | rfl | rfl | rfl | rfl | rfl | rfl | rfl | rfl <;> rfl

theorem value_append_singleton (numeral : List Char) (c : Char) :
    value (numeral ++ [c]) = 10 * value numeral + (c.toNat - '0'.toNat) := by
  simp [value]

/-- Reading a numeral gives back the number that it was written for. -/
theorem value_digits (n : Nat) : value (digits n) = n := by
  fun_induction digits n with
  | case1 n h => simp [value, toNat_digit h]
  | case2 n h ih =>
    rw [value_append_singleton, ih, toNat_digit (by omega)]
    omega

end Decimal
end MonkeyLang
