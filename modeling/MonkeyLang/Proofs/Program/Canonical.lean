import MonkeyLang.Proofs.Program.Tokens
import MonkeyLang.Proofs.Token.Layout

/-!
# Canonical numerals

A program is written with the shortest numerals of its numbers.  `Program.canonical` is the program
that has these numerals in its tokens, and `Program.same_canonical_iff` says for which programs
nothing changes: for those without a numeral that starts with superfluous zeros.

A node for an integer keeps both its value and the token that it was read from, and the text of a
program is made from the value.  So `007` is written as `7`, and the node that comes back has a
different token.  This is the only thing in which a program and its rendered text can differ: other
tokens are determined by what their nodes say.

The condition is about tokens and not about nodes.  A token of an integer can stand in a program
outside of its node, as the first token of a statement, and it changes there along with the node.
-/

set_option autoImplicit false

namespace MonkeyLang

/-! ## Numerals

Decimal numerals as lists of digits.  `Decimal.digits` gives the shortest numeral of a number and
`Decimal.value` reads any numeral; that the two belong together is needed in both directions. -/

namespace Decimal

/-- The numeral starts with a zero that it does not need. -/
def Padded (numeral : List Char) : Prop := numeral.head? = some '0' ∧ 1 < numeral.length

instance (numeral : List Char) : Decidable (Padded numeral) :=
  inferInstanceAs (Decidable (_ ∧ _))

theorem isDigit_digit {d : Nat} (h : d < 10) : (digit d).isDigit = true := by
  have hd : d = 0 ∨ d = 1 ∨ d = 2 ∨ d = 3 ∨ d = 4 ∨ d = 5 ∨ d = 6 ∨ d = 7 ∨ d = 8 ∨ d = 9 := by
    omega
  rcases hd with rfl | rfl | rfl | rfl | rfl | rfl | rfl | rfl | rfl | rfl <;> rfl

/-- A digit is the digit of its value. -/
theorem digit_of_isDigit {c : Char} (h : c.isDigit = true) :
    c.toNat - '0'.toNat < 10 ∧ digit (c.toNat - '0'.toNat) = c := by
  obtain ⟨hlow, hhigh⟩ := Char.isDigit_iff_toNat.1 h
  have hnine : '9'.toNat = '0'.toNat + 9 := rfl
  refine ⟨by omega, ?_⟩
  rw [digit, Nat.add_sub_cancel' hlow, Char.ofNat_toNat]

theorem digits_ne_nil (n : Nat) : digits n ≠ [] := by
  rw [digits]
  split <;> simp

/-- A numeral consists of digits. -/
theorem isDigit_of_mem_digits (n : Nat) : ∀ c ∈ digits n, c.isDigit = true := by
  fun_induction digits n with
  | case1 n h => simpa using isDigit_digit h
  | case2 n h ih =>
    rw [List.forall_mem_append]
    exact ⟨ih, by simpa using isDigit_digit (Nat.mod_lt n (by decide))⟩

/-- The numeral of a number with at least two digits. -/
theorem digits_append {n d : Nat} (hn : 0 < n) (hd : d < 10) :
    digits (10 * n + d) = digits n ++ [digit d] := by
  rw [digits, if_neg (by omega), show (10 * n + d) / 10 = n by omega,
    show (10 * n + d) % 10 = d by omega]

/-- The shortest numeral needs all its digits. -/
theorem not_padded_digits (n : Nat) : ¬ Padded (digits n) := by
  fun_induction digits n with
  | case1 n h => simp [Padded]
  | case2 n h ih =>
    rintro ⟨hhead, -⟩
    obtain ⟨c, cs, hcs⟩ := List.exists_cons_of_ne_nil (digits_ne_nil (n / 10))
    replace hhead : (digits (n / 10)).head? = some '0' := by
      rw [hcs] at hhead ⊢
      exact hhead
    -- Only the numeral of zero starts with a zero, and `n / 10` is not zero.
    have hlength : ¬ 1 < (digits (n / 10)).length := fun hlength ↦ ih ⟨hhead, hlength⟩
    have hone : n / 10 < 10 := by
      by_contra hten
      rw [digits, if_neg hten, List.length_append, List.length_singleton] at hlength
      exact hlength (Nat.succ_lt_succ (List.length_pos_iff.2 (digits_ne_nil _)))
    rw [digits, if_pos hone, List.head?_singleton, Option.some.injEq] at hhead
    have hvalue := toNat_digit hone
    rw [hhead] at hvalue
    omega

/-- A numeral that does not start with a zero has a positive value, whatever follows. -/
theorem value_pos {numeral : List Char} {c : Char} (hhead : numeral.head? = some c)
    (hc : c.isDigit = true) (hzero : c ≠ '0') : 0 < value numeral := by
  induction numeral using List.reverseRecOn with
  | nil => exact absurd hhead (by simp)
  | append_singleton cs d ih =>
    rw [value_append_singleton]
    cases cs with
    | nil =>
      obtain rfl : d = c := by simpa using hhead
      obtain ⟨-, hdigit⟩ := digit_of_isDigit hc
      have hpos : d.toNat - '0'.toNat ≠ 0 := by
        intro h
        rw [h] at hdigit
        exact hzero hdigit.symm
      omega
    | cons b bs =>
      have hpos := ih hhead
      omega

/-- A numeral without superfluous zeros is the shortest one of its number. -/
theorem digits_value {numeral : List Char} (hne : numeral ≠ [])
    (hdigits : ∀ c ∈ numeral, c.isDigit = true) (h : ¬ Padded numeral) :
    digits (value numeral) = numeral := by
  induction numeral using List.reverseRecOn with
  | nil => exact absurd rfl hne
  | append_singleton cs d ih =>
    rw [List.forall_mem_append, List.forall_mem_singleton] at hdigits
    obtain ⟨hlt, hdigit⟩ := digit_of_isDigit hdigits.2
    rw [value_append_singleton]
    cases cs with
    | nil =>
      rw [show value [] = 0 from rfl, Nat.mul_zero, Nat.zero_add, digits, if_pos hlt, hdigit]
      rfl
    | cons b bs =>
      have hb : b ≠ '0' := by
        rintro rfl
        exact h ⟨rfl, by simp⟩
      have hcs : ¬ Padded (b :: bs) := fun hpadded ↦ hb (Option.some.inj hpadded.1)
      have hpos : 0 < value (b :: bs) := value_pos rfl (hdigits.1 b List.mem_cons_self) hb
      rw [digits_append hpos hlt, ih (by simp) hdigits.1 hcs, hdigit]

/-- **A numeral is the shortest one of its number unless it starts with superfluous zeros.** -/
theorem digits_value_iff {numeral : List Char} (hne : numeral ≠ [])
    (hdigits : ∀ c ∈ numeral, c.isDigit = true) :
    digits (value numeral) = numeral ↔ ¬ Padded numeral := by
  refine ⟨fun h ↦ ?_, digits_value hne hdigits⟩
  rw [← h]
  exact not_padded_digits _

example : Padded "007".toList ∧ ¬ Padded "70".toList ∧ ¬ Padded "0".toList := by decide

/-- The shortest numeral of a number is a token that a text can hold. -/
theorem wellFormed_ofNat (n : Nat) : (TokenKind.int (ofNat n)).WellFormed := by
  have htext : (ofNat n).toList = digits n := String.toList_ofList
  refine ⟨?_, ?_⟩
  · rw [htext]
    exact digits_ne_nil n
  · rw [htext]
    exact isDigit_of_mem_digits n

end Decimal

/-! ## Canonical tokens -/

namespace TokenKind

/-- The kind with the shortest numeral, if it is a number. -/
def canonical : TokenKind → TokenKind
  | int numeral => .int (Decimal.ofNat (Decimal.value numeral.toList))
  | kind => kind

/-- The token is a number that is written with superfluous zeros in front. -/
def Padded : TokenKind → Prop
  | int numeral => Decimal.Padded numeral.toList
  | _ => False

/-- A token of an integer is its own shortest form unless it has superfluous zeros, and so is every
other token. -/
theorem canonical_eq_iff {kind : TokenKind} (h : kind.WellFormed) :
    kind.canonical = kind ↔ ¬ kind.Padded := by
  cases kind with
  | int numeral =>
    rw [Padded, ← Decimal.digits_value_iff h.1 h.2, canonical, int.injEq, Decimal.ofNat,
      ← String.toList_inj, String.toList_ofList]
  | _ => simp [canonical, Padded]

end TokenKind

/-- The token with the shortest numeral, if it is a number.  Shortening is a change of tokens like
any other, so that it goes through a program by `Program.mapTokens`. -/
def Token.canonical (t : Token) : Token := ⟨t.kind.canonical, t.position⟩

/-- The program with the shortest numerals in its tokens. -/
def Program.canonical (p : Program) : Program := p.mapTokens Token.canonical

/-- **Shortening the numerals changes nothing in a program unless one of them starts with
superfluous zeros.** -/
theorem Program.same_canonical_iff {p : Program} (h : ∀ t ∈ p.tokens, t.kind.WellFormed) :
    p.canonical.same p = true ↔ ∀ t ∈ p.tokens, ¬ t.kind.Padded := by
  rw [same_iff, canonical, mapTokens_mapTokens, mapTokens_eq_iff]
  refine forall₂_congr fun t ht ↦ ?_
  rw [Function.comp_apply, Token.forget_eq_forget_iff]
  exact TokenKind.canonical_eq_iff (h t ht)

end MonkeyLang
