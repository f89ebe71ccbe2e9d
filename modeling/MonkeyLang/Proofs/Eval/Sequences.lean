import Mathlib.Algebra.Ring.Nat
import MonkeyLang.Eval
import MonkeyLang.Proofs.Outcome

/-!
# Arrays and strings as sequences

Five builtin functions and the index operator look at the same arrays, each in its own way: `rest`
gives `null` for the empty array, an index outside the array gives `null` on both sides, and `len`
counts with words.  `sequences_agree` says that they fit together.

`Eval.Gives` is the end that all of them come to.  It includes that nothing is changed by them, no
array in particular: what was bound before is bound to the same values afterwards.

## Lengths

An array of `2 ^ 63` elements would have a negative length.  Nothing in the definitions forbids it,
so what is said about lengths assumes that they fit into words.  No machine has memory for more.
Calling `rest` again and again, and indexing within the array, do not depend on lengths and need no
assumption.

Strings are counted in bytes of their encoding and not in characters, so the length of two strings
together is always the sum of the lengths.  They cannot be indexed.

## What fits together

Elements are numbered from zero.  The element at an index is the first one after `rest` was called
so many times, the last one has the index before the length, and a new element comes to the index
that was the length.  At the length, and everywhere else outside, there is `null`, which cannot be
told from an element that is `null`.
-/

set_option autoImplicit false

namespace MonkeyLang

namespace Eval

/-- The evaluation comes to the value, in any state, and changes nothing. -/
def Gives (run : Eval Value) (v : Value) : Prop := ∀ m, run m = .done v m

theorem Gives.bind {run : Eval Value} {v w : Value} {next : Value → Eval Value}
    (h : Gives run v) (hnext : Gives (next v) w) : Gives (run >>= next) w :=
  fun m ↦ (Action.bind_of_done (h m) next).trans (hnext m)

theorem gives_pure (v : Value) : Gives (pure v) v := fun _ ↦ rfl

/-- Call `rest` on a value, on what this gives, and so on, so many times. -/
def restTimes : Nat → Value → Eval Value
  | 0, v => pure v
  | i + 1, v => do
    let w ← callBuiltin .rest [v]
    restTimes i w

/-! ## Calls -/

theorem gives_rest_nil : Gives (callBuiltin .rest [.array []]) .null := fun _ ↦ rfl

theorem gives_rest_cons (v : Value) (vs : List Value) :
    Gives (callBuiltin .rest [.array (v :: vs)]) (.array vs) := fun _ ↦ rfl

/-- The first element of an array, or `null`. -/
theorem gives_first (vs : List Value) :
    Gives (callBuiltin .first [.array vs]) (vs.headD .null) := fun _ ↦ rfl

theorem gives_last (vs : List Value) :
    Gives (callBuiltin .last [.array vs]) (vs.getLastD .null) := fun _ ↦ rfl

theorem gives_push (vs : List Value) (v : Value) :
    Gives (callBuiltin .push [.array vs, v]) (.array (vs ++ [v])) := fun _ ↦ rfl

theorem gives_len_array (vs : List Value) :
    Gives (callBuiltin .len [.array vs]) (.int (Int64.ofNat vs.length)) := fun _ ↦ rfl

theorem gives_len_string (s : String) :
    Gives (callBuiltin .len [.string s]) (.int (Int64.ofNat s.utf8ByteSize)) := fun _ ↦ rfl

/-- **Each call of `rest` takes one element off the front**, as long as there is one. -/
theorem gives_restTimes {vs : List Value} {i : Nat} (hi : i ≤ vs.length) :
    Gives (restTimes i (.array vs)) (.array (vs.drop i)) := by
  induction i generalizing vs with
  | zero => exact gives_pure _
  | succ i ih =>
    cases vs with
    | nil => exact absurd hi (Nat.not_succ_le_zero i)
    | cons v vs => exact (gives_rest_cons v vs).bind (ih (Nat.le_of_succ_le_succ hi))

/-- One call more gives `null`. -/
theorem gives_restTimes_null (vs : List Value) :
    Gives (restTimes (vs.length + 1) (.array vs)) .null := by
  induction vs with
  | nil => exact gives_rest_nil.bind (gives_pure _)
  | cons v vs ih => exact (gives_rest_cons v vs).bind ih

end Eval

/-! ## Indexes -/

theorem elementAt_of_nonneg (vs : List Value) {i : Int64} (hi : 0 ≤ i.toInt) :
    elementAt vs i = vs.getD i.toInt.toNat .null := by
  have hnonneg : ¬ i < 0 := fun h ↦ Int.not_lt.2 hi (Int64.lt_iff_toInt_lt.1 h)
  rw [elementAt, if_neg hnonneg]

/-- The index of an element is the number of elements before it, if there are not too many of
them. -/
theorem elementAt_ofNat (vs : List Value) {n : Nat} (hn : n < 2 ^ 63) :
    elementAt vs (Int64.ofNat n) = vs.getD n .null := by
  have htoInt : (Int64.ofNat n).toInt = n := Int64.toInt_ofNat_of_lt hn
  rw [elementAt_of_nonneg vs (by omega), htoInt, Int.toNat_natCast]

/-- Outside of an array there is `null`. -/
theorem elementAt_outside (vs : List Value) {i : Int64}
    (hi : ¬ (0 ≤ i.toInt ∧ i.toInt < vs.length)) : elementAt vs i = .null := by
  rcases Int.lt_or_le i.toInt 0 with hneg | hnonneg
  · exact if_pos (Int64.lt_iff_toInt_lt.2 hneg)
  · rw [elementAt_of_nonneg vs hnonneg, List.getD_eq_getElem?_getD,
      List.getElem?_eq_none (by omega), Option.getD_none]

/-- Before the last element of an array, it is the array without it. -/
theorem elementAt_concat (vs : List Value) (v : Value) {i : Int64} (hnonneg : 0 ≤ i.toInt)
    (hlt : i.toInt < vs.length) : elementAt (vs ++ [v]) i = elementAt vs i := by
  rw [elementAt_of_nonneg _ hnonneg, elementAt_of_nonneg _ hnonneg, List.getD_eq_getElem?_getD,
    List.getD_eq_getElem?_getD, List.getElem?_append_left (by omega)]

theorem headD_drop (vs : List Value) (i : Nat) (v : Value) : (vs.drop i).headD v = vs.getD i v := by
  rw [List.headD_eq_head?_getD, List.head?_drop, List.getD_eq_getElem?_getD]

/-- The last element has the index before the length, and the empty array has none there. -/
theorem elementAt_length_sub_one {vs : List Value} (hlength : vs.length < 2 ^ 63) :
    elementAt vs (Int64.ofNat vs.length - 1) = vs.getLastD .null := by
  rcases List.eq_nil_or_concat vs with rfl | ⟨us, v, rfl⟩
  · rfl
  · rw [List.concat_eq_append, List.length_append, List.length_singleton] at hlength ⊢
    have hpred : Int64.ofNat (us.length + 1) - 1 = Int64.ofNat us.length := by
      rw [Int64.ofNat_add]
      exact Int64.add_sub_cancel _ _
    rw [hpred, elementAt_ofNat _ (by omega)]
    simp

/-! ## All together -/

open Eval

/-- **Arrays and strings are sequences**, for the builtin functions as for the index operator.  None
of them changes anything.

* Calling `rest` as often as an index says and then `first` gives the element at the index, and
  `null` at the length.  Calling `rest` once more than there are elements gives `null`.
* Outside the array, be it before the first element, there is `null`.

Arrays and strings that fit into memory have lengths that fit into words.  For these

* `last` gives the element at the index before the length, which is `null` for the empty array,
* `push` gives an array that is longer by one, with the new value as its last element and the old
  elements where they were, and
* the length of two strings together is the sum of their lengths, counted in bytes. -/
theorem sequences_agree :
    (∀ vs : List Value,
      (∀ i : Int64, 0 ≤ i.toInt → i.toInt ≤ vs.length →
        ∃ w,
          Gives (do
            let rest ← restTimes i.toInt.toNat (.array vs)
            callBuiltin .first [rest]) w ∧
          applyIndex (.array vs) (.int i) = .ok w ∧ (i.toInt = vs.length → w = .null)) ∧
      Gives (restTimes (vs.length + 1) (.array vs)) .null ∧
      (∀ i : Int64, ¬ (0 ≤ i.toInt ∧ i.toInt < vs.length) →
        applyIndex (.array vs) (.int i) = .ok .null) ∧
      (vs.length < 2 ^ 63 → ∃ n : Int64, n.toInt = vs.length ∧
        Gives (callBuiltin .len [.array vs]) (.int n) ∧
        (∃ w, Gives (callBuiltin .last [.array vs]) w ∧
          applyIndex (.array vs) (.int (n - 1)) = .ok w ∧ (vs = [] → w = .null)) ∧
        ∀ v, ∃ us, Gives (callBuiltin .push [.array vs, v]) (.array us) ∧
          us.length = vs.length + 1 ∧ Gives (callBuiltin .len [.array us]) (.int (n + 1)) ∧
          applyIndex (.array us) (.int n) = .ok v ∧ Gives (callBuiltin .last [.array us]) v ∧
          ∀ i : Int64, 0 ≤ i.toInt → i.toInt < n.toInt →
            applyIndex (.array us) (.int i) = applyIndex (.array vs) (.int i))) ∧
    ∀ s t : String, ∃ m n : Int64,
      Gives (callBuiltin .len [.string s]) (.int m) ∧
      Gives (callBuiltin .len [.string t]) (.int n) ∧
      Gives (do
        let both ← ofExcept (applyBinary .plus (.string s) (.string t))
        callBuiltin .len [both]) (.int (m + n)) ∧
      (s.utf8ByteSize + t.utf8ByteSize < 2 ^ 63 →
        m.toInt = s.utf8ByteSize ∧ n.toInt = t.utf8ByteSize ∧
          (m + n).toInt = s.utf8ByteSize + t.utf8ByteSize) := by
  refine ⟨fun vs ↦ ⟨fun i hnonneg hle ↦ ?_, gives_restTimes_null vs, fun i hi ↦ ?_,
    fun hlength ↦ ?_⟩, fun s t ↦ ?_⟩
  -- the element at an index is the first one of what is left there
  · have hlength : i.toInt.toNat ≤ vs.length := by omega
    have hfirst := gives_first (vs.drop i.toInt.toNat)
    rw [headD_drop, ← elementAt_of_nonneg vs hnonneg] at hfirst
    exact ⟨_, (gives_restTimes hlength).bind hfirst, rfl, fun heq ↦ elementAt_outside vs (by omega)⟩
  · exact congrArg Except.ok (elementAt_outside vs hi)
  · have hn : (Int64.ofNat vs.length).toInt = vs.length := Int64.toInt_ofNat_of_lt hlength
    refine ⟨Int64.ofNat vs.length, hn, gives_len_array vs, ⟨_, gives_last vs, ?_, ?_⟩, fun v ↦ ?_⟩
    · exact congrArg Except.ok (elementAt_length_sub_one hlength)
    · rintro rfl
      rfl
    · refine ⟨vs ++ [v], gives_push vs v, List.length_append, ?_, ?_, ?_, fun i hi hlt ↦ ?_⟩
      · have hlen := gives_len_array (vs ++ [v])
        rwa [List.length_append, List.length_singleton, Int64.ofNat_add] at hlen
      · refine congrArg Except.ok ((elementAt_ofNat _ hlength).trans ?_)
        simp
      · have hlast := gives_last (vs ++ [v])
        rwa [List.getLastD_concat] at hlast
      · exact congrArg Except.ok (elementAt_concat vs v hi (by omega))
  · refine ⟨_, _, gives_len_string s, gives_len_string t, ?_, fun h ↦ ?_⟩
    · have hlen := gives_len_string (s ++ t)
      rw [String.utf8ByteSize_append, Int64.ofNat_add] at hlen
      exact hlen
    · rw [← Int64.ofNat_add, Int64.toInt_ofNat_of_lt (by omega), Int64.toInt_ofNat_of_lt (by omega),
        Int64.toInt_ofNat_of_lt (by omega)]
      omega

/-- The element at the index 1 of an array with two of them, a negative index, and the index after
an element is pushed.  The first string has two characters, of one and of two bytes. -/
theorem sequences_agree_pair :
    let vs := [Value.int 7, .bool true]
    (∃ w, Gives (do let rest ← restTimes 1 (.array vs); callBuiltin .first [rest]) w ∧
      applyIndex (.array vs) (.int 1) = .ok w) ∧
    applyIndex (.array vs) (.int (-1)) = .ok .null ∧
    (∃ us, Gives (callBuiltin .push [.array vs, .null]) (.array us) ∧
      applyIndex (.array us) (.int 2) = .ok .null ∧
      applyIndex (.array us) (.int 0) = applyIndex (.array vs) (.int 0)) ∧
    ∃ n : Int64, n.toInt = 5 ∧ Gives (do
      let both ← ofExcept (applyBinary .plus (.string "né") (.string "as"))
      callBuiltin .len [both]) (.int n) := by
  intro vs
  obtain ⟨harrays, hstrings⟩ := sequences_agree
  obtain ⟨hfirst, -, houtside, hfits⟩ := harrays vs
  obtain ⟨n, hn, -, -, hpush⟩ := hfits (by decide)
  obtain ⟨w, hw, hindex, -⟩ := hfirst 1 (by decide) (by decide)
  obtain ⟨us, hus, -, -, hlast, -, hbelow⟩ := hpush .null
  obtain rfl : n = 2 := Int64.toInt_inj.1 hn
  obtain ⟨m, k, -, -, hlen, hbytes⟩ := hstrings "né" "as"
  obtain ⟨-, -, hsum⟩ := hbytes (by decide)
  exact ⟨⟨w, hw, hindex⟩, houtside (-1) (by decide),
    ⟨us, hus, hlast, hbelow 0 (by decide) (by decide)⟩, m + k, hsum, hlen⟩

end MonkeyLang
