import Mathlib.Algebra.Ring.Int.Defs
import Mathlib.Algebra.Ring.Nat
import MonkeyLang.Proofs.Eval.Rules
import MonkeyLang.Proofs.Program.Nodes

/-!
# Integer arithmetic

The integers of a program are 64-bit words, and every operation wraps around.  Sums, differences,
products and negations wrap in such a way that it does not matter when: the word that a tree of
them comes to is the one that its exact value wraps to.  Only a quotient depends on the words of
its operands, not just on their exact values, and it is the only operation that can fail.

* `wrap` takes an integer to the integer that a word stands for, and `wrap_eq_iff` says which.
* `Expr.exact` is the exact value of an arithmetic expression.  It wraps nowhere but at the
  operands of quotients.
* `eval_arithmetic` says what an arithmetic expression evaluates to, and when it fails.

## Quotients

A quotient is not compatible with wrapping: `2 ^ 64 / 2` is not zero, and the word of the dividend
is.  There is nothing to be done about it, and so the exact value of an expression takes the
quotient of what its operands wrap to.  Between quotients the arithmetic is exact.

The one quotient that leaves the range, the least integer divided by `-1`, wraps around like
everything else.  It is no error.  Division by zero is, and the divisor counts as zero if its word
is: `eval_arithmetic_wrapped_divisor` has a divisor with an exact value of `2 ^ 64`.

## Which division fails

Evaluation goes from left to right and stops at the first error.  `Expr.DividesByZero` asks for a
division whose operands both have values, that of the divisor being zero.  It need not be the first
such division.  If it is not reached at all, another one has failed before it, with the same error,
since nothing else in arithmetic can fail.
-/

set_option autoImplicit false

namespace MonkeyLang

/-! ## Words -/

/-- The signed 64-bit integer that an integer wraps around to. -/
def wrap (x : Int) : Int := x.bmod (2 ^ 64)

/-- Wrapping is reduction modulo `2 ^ 64` to the range of the signed 64-bit integers. -/
theorem wrap_eq_iff {x y : Int} :
    wrap x = y ↔ -2 ^ 63 ≤ y ∧ y < 2 ^ 63 ∧ (2 ^ 64 : Int) ∣ x - y := by
  rw [wrap, Int.bmod_def]
  split <;> omega

/-- Making a word of an integer wraps it. -/
theorem toInt_ofInt_eq_wrap (x : Int) : (Int64.ofInt x).toInt = wrap x := Int64.toInt_ofInt

/-- A word is zero if the integer that it wraps is a multiple of `2 ^ 64`. -/
theorem ofInt_eq_zero_iff (x : Int) : Int64.ofInt x = 0 ↔ wrap x = 0 := by
  rw [← Int64.toInt_inj, toInt_ofInt_eq_wrap, Int64.toInt_zero]

/-- The quotient of two words is that of the integers they stand for, and wrapped if need be. -/
theorem ofInt_wrap_tdiv (x y : Int) :
    Int64.ofInt ((wrap x).tdiv (wrap y)) = Int64.ofInt x / Int64.ofInt y := by
  rw [← Int64.toInt_inj, Int64.toInt_div, toInt_ofInt_eq_wrap, toInt_ofInt_eq_wrap,
    toInt_ofInt_eq_wrap]
  rfl

/-! ## Arithmetic expressions -/

/-- The operators of arithmetic. -/
def Operator.arithmetic : List Operator := [.plus, .minus, .asterisk, .slash]

namespace Expr

/-- Expressions made of integers by negation, addition, subtraction, multiplication and division.
Trees made by hand are included: the token of a node does not matter here, and an integer may be
negative. -/
inductive Arithmetic : Expr → Prop
  | int (t : Token) (n : Int64) : Arithmetic (.int t n)
  | negation (t : Token) {a : Expr} (ha : Arithmetic a) : Arithmetic (.unary t .minus a)
  | operation (t : Token) {op : Operator} (hop : op ∈ Operator.arithmetic) {a b : Expr}
      (ha : Arithmetic a) (hb : Arithmetic b) : Arithmetic (.binary t op a b)

/-- The exact value of an arithmetic expression.  A quotient is that of the wrapped operands,
rounded toward zero. -/
def exact : Expr → Int
  | .int _ n => n.toInt
  | .unary _ _ a => -a.exact
  | .binary _ .plus a b => a.exact + b.exact
  | .binary _ .minus a b => a.exact - b.exact
  | .binary _ .asterisk a b => a.exact * b.exact
  | .binary _ .slash a b => (wrap a.exact).tdiv (wrap b.exact)
  | _ => 0

/-- The expression has a value. -/
def Evaluates (frame : Frame) (m : Machine) (e : Expr) : Prop :=
  ∃ v m', e.ComesTo frame m (.done v m')

/-- There is a quotient in the expression whose operands both have values, that of the divisor
being zero. -/
def DividesByZero (frame : Frame) (m : Machine) (e : Expr) : Prop :=
  ∃ t a b, Node.expr (.binary t .slash a b) ∈ e.nodes ∧ a.Evaluates frame m ∧
    b.Evaluates frame m ∧ wrap b.exact = 0

/-- The two ends of an arithmetic expression: its value wraps the exact one and nothing is divided
by zero, or something is, and that is the error. -/
inductive Computes (frame : Frame) (m : Machine) (e : Expr) : Prop
  | value (he : e.ComesTo frame m (.done (.int (Int64.ofInt e.exact)) m))
      (hdivides : ¬ e.DividesByZero frame m)
  | error (he : e.ComesTo frame m (.stop (.failed .divisionByZero) m))
      (hdivides : e.DividesByZero frame m)

end Expr

/-! ## Evaluation -/

namespace Expr

variable {frame : Frame} {m : Machine}

/-- The operators that wrap at the end as they do on the way. -/
theorem applyToInts_eq (t : Token) {op : Operator} (hop : op ∈ Operator.arithmetic) {a b : Expr}
    (h : op = .slash → wrap b.exact ≠ 0) :
    applyToInts op (Int64.ofInt a.exact) (Int64.ofInt b.exact) =
      .ok (.int (Int64.ofInt (binary t op a b).exact)) := by
  simp only [Operator.arithmetic, List.mem_cons, List.not_mem_nil, or_false] at hop
  rcases hop with rfl | rfl | rfl | rfl
  · rw [applyToInts, exact, Int64.ofInt_add]
  · rw [applyToInts, exact, Int64.ofInt_sub]
  · rw [applyToInts, exact, Int64.ofInt_mul]
  · rw [applyToInts, if_neg ((ofInt_eq_zero_iff _).not.2 (h rfl)), exact, ofInt_wrap_tdiv]

/-- An integer divides nothing. -/
theorem not_dividesByZero_int (t : Token) (n : Int64) : ¬ (int t n).DividesByZero frame m := by
  rintro ⟨u, a, b, hmem, -⟩
  simp [nodes] at hmem

/-- A negation divides by zero where its operand does. -/
theorem dividesByZero_unary {t : Token} {op : Operator} {a : Expr} :
    (unary t op a).DividesByZero frame m ↔ a.DividesByZero frame m := by
  simp [DividesByZero, nodes]

/-- An operation divides by zero where one of its operands does, or else at the top. -/
theorem dividesByZero_binary {t : Token} {op : Operator} {a b : Expr} :
    (binary t op a b).DividesByZero frame m ↔
      (op = .slash ∧ a.Evaluates frame m ∧ b.Evaluates frame m ∧ wrap b.exact = 0) ∨
        a.DividesByZero frame m ∨ b.DividesByZero frame m := by
  constructor
  · rintro ⟨u, c, d, hmem, h⟩
    simp only [nodes, List.mem_cons, List.mem_append, Node.expr.injEq, binary.injEq] at hmem
    obtain ⟨rfl, rfl, rfl, rfl⟩ | hleft | hright := hmem
    · exact .inl ⟨rfl, h⟩
    · exact .inr (.inl ⟨u, c, d, hleft, h⟩)
    · exact .inr (.inr ⟨u, c, d, hright, h⟩)
  · rintro (⟨rfl, h⟩ | ⟨u, c, d, hleft, h⟩ | ⟨u, c, d, hright, h⟩)
    · exact ⟨t, a, b, by simp [nodes], h⟩
    · exact ⟨u, c, d, by simp [nodes, hleft], h⟩
    · exact ⟨u, c, d, by simp [nodes, hright], h⟩

/-- A negation wraps what its operand wraps, and fails with it. -/
theorem Computes.negation {a : Expr} (ha : a.Computes frame m) (t : Token) :
    (unary t .minus a).Computes frame m := by
  cases ha with
  | value ha hdivides =>
    refine .value ?_ (dividesByZero_unary.not.2 hdivides)
    rw [exact, Int64.ofInt_neg]
    exact ha.unary t .minus
  | error ha hdivides => exact .error (ha.unary_stop t .minus) (dividesByZero_unary.2 hdivides)

/-- An operation evaluates both operands, and has one more way to fail if it is a division. -/
theorem Computes.operation {op : Operator} (hop : op ∈ Operator.arithmetic) {a b : Expr}
    (ha : a.Computes frame m) (hb : b.Computes frame m) (t : Token) :
    (binary t op a b).Computes frame m := by
  cases ha with
  | error ha hdivides =>
    exact .error (ha.left_stop t op b) (dividesByZero_binary.2 (.inr (.inl hdivides)))
  | value ha hnone =>
    cases hb with
    | error hb hdivides =>
      exact .error (ha.right_stop hb t op) (dividesByZero_binary.2 (.inr (.inr hdivides)))
    | value hb hnone' =>
      have hresult := ha.binary hb t op
      rw [applyBinary] at hresult
      -- only the quotient at the top can still fail
      by_cases hzero : op = .slash ∧ wrap b.exact = 0
      · obtain ⟨rfl, hzero⟩ := hzero
        rw [applyToInts, if_pos ((ofInt_eq_zero_iff _).2 hzero)] at hresult
        exact .error hresult (dividesByZero_binary.2 (.inl ⟨rfl, ⟨_, _, ha⟩, ⟨_, _, hb⟩, hzero⟩))
      · rw [applyToInts_eq t hop fun hslash h ↦ hzero ⟨hslash, h⟩] at hresult
        refine .value hresult fun hdivides ↦ ?_
        obtain ⟨hslash, -, -, h⟩ | h | h := dividesByZero_binary.1 hdivides
        · exact hzero ⟨hslash, h⟩
        · exact hnone h
        · exact hnone' h

/-- An arithmetic expression comes to an end in one of the two ways. -/
theorem Arithmetic.computes {e : Expr} (h : e.Arithmetic) (frame : Frame) (m : Machine) :
    e.Computes frame m := by
  induction h with
  | int t n =>
    refine .value ?_ (not_dividesByZero_int t n)
    rw [exact, Int64.ofInt_toInt]
    exact .int t n
  | negation t _ ih => exact ih.negation t
  | operation t hop _ _ iha ihb => exact iha.operation hop ihb t

end Expr

/-- **Integer arithmetic is exact up to a last wrapping.**  Without quotients, an arithmetic
expression evaluates to what its exact value wraps to.  With quotients, each of which is that of its
wrapped operands, the same holds unless some quotient has a divisor whose value wraps to zero, and
exactly then the evaluation fails, with that error. -/
theorem eval_arithmetic {e : Expr} (h : e.Arithmetic) (frame : Frame) (m : Machine) :
    ((∀ t a b, Node.expr (.binary t .slash a b) ∉ e.nodes) →
      ∃ n : Int64, n.toInt = wrap e.exact ∧ e.ComesTo frame m (.done (.int n) m)) ∧
    (¬ e.DividesByZero frame m →
      ∃ n : Int64, n.toInt = wrap e.exact ∧ e.ComesTo frame m (.done (.int n) m)) ∧
    (e.ComesTo frame m (.stop (.failed .divisionByZero) m) ↔ e.DividesByZero frame m) := by
  cases h.computes frame m with
  | value he hnone =>
    have hvalue : ∃ n : Int64, n.toInt = wrap e.exact ∧ e.ComesTo frame m (.done (.int n) m) :=
      ⟨_, toInt_ofInt_eq_wrap e.exact, he⟩
    refine ⟨fun _ ↦ hvalue, fun _ ↦ hvalue, fun hstop ↦ ?_, fun hdivides ↦ ?_⟩
    · exact absurd (he.unique hstop) (by simp)
    · exact absurd hdivides hnone
  | error he hdivides =>
    refine ⟨fun hno ↦ ?_, fun hnone ↦ absurd hdivides hnone, fun _ ↦ hdivides, fun _ ↦ he⟩
    obtain ⟨t, a, b, hmem, -⟩ := hdivides
    exact absurd hmem (hno t a b)

/-- A divisor that is not zero, but wraps to zero. -/
theorem eval_arithmetic_wrapped_divisor :
    let number (n : Int64) : Expr := .int ⟨.int (Decimal.ofInt n.toInt), .start⟩ n
    let divisor : Expr :=
      .binary ⟨.symbol .asterisk, .start⟩ .asterisk (number 4611686018427387904) (number 4)
    let quotient : Expr := .binary ⟨.symbol .slash, .start⟩ .slash (number 1) divisor
    quotient.Arithmetic ∧ divisor.exact = 2 ^ 64 ∧
      quotient.ComesTo ⟨0, 0⟩ .initial (.stop (.failed .divisionByZero) .initial) := by
  intro number divisor quotient
  have harithmetic : quotient.Arithmetic :=
    .operation _ (by decide) (.int _ _) (.operation _ (by decide) (.int _ _) (.int _ _))
  have hdivides : quotient.DividesByZero ⟨0, 0⟩ .initial := by
    refine ⟨⟨.symbol .slash, .start⟩, number 1, divisor, ?_, ?_, ?_, by decide⟩
    · simp [quotient, Expr.nodes]
    · exact ⟨_, _, .int _ _⟩
    · exact ⟨_, _, .binary (.int _ _) (.int _ _) _ _⟩
  exact ⟨harithmetic, by decide, (eval_arithmetic harithmetic ⟨0, 0⟩ .initial).2.2.2 hdivides⟩

end MonkeyLang
