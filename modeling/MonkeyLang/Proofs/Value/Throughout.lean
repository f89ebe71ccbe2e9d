import Mathlib.Data.String.Basic
import MonkeyLang.Proofs.Value.Congruence
import MonkeyLang.Proofs.Value.Held

/-!
# What holds throughout a value

Some things are said of all hashes and all functions in a value, at any depth.  `Value.Throughout
hashes functions` says them both at once.

The hashes that evaluation makes list their keys in order, each of them once.  A value all of whose
hashes do is `Value.Ordered`.  If the keys of all hashes are merely different, the value is
`Value.Distinct`: then its pairs can be listed in any order, which stands for the order in which a
host might come by them.

The property has two parameters because an evaluation keeps two invariants of values, one about
hashes and one about functions, by the same argument.  They could be kept one after the other, but
a hash that holds functions belongs to both, and the argument would be made twice.  A part that is
of no interest is `fun _ ↦ True`.

`Value.hereditary_throughout` is what evaluation needs: an index or a builtin function that gets
values with the property gives values with the property.
-/

set_option autoImplicit false

namespace MonkeyLang

/-! ## The order of keys

It is a strict total order: integers come before truth values and these before strings, and within
each type the order is the usual one. -/

namespace Key

theorem lt_iff {j k : Key} : j < k ↔ j.before k = true := Iff.rfl

theorem lt_irrefl (k : Key) : ¬ k < k := by
  rw [lt_iff]
  cases k with
  | int n => simp [before]
  | bool b => simp [before]
  | string text => simp [before]

theorem lt_trans {i j k : Key} (hij : i < j) (hjk : j < k) : i < k := by
  rw [lt_iff] at *
  cases i <;> cases j <;> cases k <;> simp only [before, decide_eq_true_eq] at * <;> grind

theorem eq_of_not_lt {j k : Key} (hjk : ¬ j < k) (hkj : ¬ k < j) : j = k := by
  rw [lt_iff] at hjk hkj
  cases j with
  | int m =>
    cases k with
    | int n =>
      simp only [before, decide_eq_true_eq, Int64.not_lt] at hjk hkj
      rw [Int64.le_antisymm hkj hjk]
    | _ => exact absurd rfl hjk
  | bool a =>
    cases k with
    | int n => exact absurd rfl hkj
    | bool b => cases a <;> cases b <;> first | rfl | exact absurd rfl hjk | exact absurd rfl hkj
    | string b => exact absurd rfl hjk
  | string a =>
    cases k with
    | string b =>
      simp only [before, decide_eq_true_eq, not_lt] at hjk hkj
      rw [le_antisymm hkj hjk]
    | _ => exact absurd rfl hkj

instance : IsStrictTotalOrder Key (· < ·) where
  irrefl := lt_irrefl
  trans _ _ _ := lt_trans
  trichotomous _ _ := eq_of_not_lt

end Key

/-! ## Throughout a value -/

namespace Value

/-- At any depth of the value, hashes and functions have these properties.  The predicate is
inductive, so that a hypothesis about a value of known shape can be taken apart, and one about an
unknown value be used for induction. -/
inductive Throughout (hashes : List (Key × Value) → Prop) (functions : Closure → Prop) :
    Value → Prop
  | int (n : Int64) : Throughout hashes functions (.int n)
  | bool (b : Bool) : Throughout hashes functions (.bool b)
  | string (text : String) : Throughout hashes functions (.string text)
  | array {vs : List Value} (h : ∀ v ∈ vs, Throughout hashes functions v) :
      Throughout hashes functions (.array vs)
  | hash {es : List (Key × Value)} (hes : hashes es)
      (h : ∀ p ∈ es, Throughout hashes functions p.2) : Throughout hashes functions (.hash es)
  | function {f : Closure} (hf : functions f) : Throughout hashes functions (.function f)
  | builtin (b : Builtin) : Throughout hashes functions (.builtin b)
  | null : Throughout hashes functions .null

/-- All hashes list their keys in order.  This is how evaluation leaves them, since the pairs of a
literal are inserted in key order. -/
def Ordered (v : Value) : Prop := v.Throughout Dict.Increasing fun _ ↦ True

/-- No hash has a key twice.  This is weaker than `Ordered`, and enough for what does not depend on
the order of the pairs, such as texts. -/
def Distinct (v : Value) : Prop := v.Throughout Dict.Distinct fun _ ↦ True

namespace Throughout

variable {hashes hashes' : List (Key × Value) → Prop} {functions functions' : Closure → Prop}
  {v : Value}

/-- Weaker properties hold throughout a value too; of functions the weakening may use that they are
held in the value. -/
theorem imp (h : v.Throughout hashes functions) (hhashes : ∀ es, hashes es → hashes' es)
    (hfunctions : ∀ f ∈ v.closures, functions f → functions' f) :
    v.Throughout hashes' functions' := by
  induction h with
  | array _ ih =>
    refine .array fun w hw ↦ ih w hw fun f hf ↦ hfunctions f ?_
    exact mem_closures_array.2 ⟨w, hw, hf⟩
  | hash hes _ ih =>
    refine .hash (hhashes _ hes) fun p hp ↦ ih p hp fun f hf ↦ hfunctions f ?_
    exact mem_closures_hash.2 ⟨p, hp, hf⟩
  | function hf => exact .function (hfunctions _ List.mem_cons_self hf)
  | _ => constructor

theorem impFunctions (h : v.Throughout hashes functions)
    (hfunctions : ∀ f ∈ v.closures, functions f → functions' f) :
    v.Throughout hashes functions' :=
  h.imp (fun _ hes ↦ hes) hfunctions

/-- What holds of the functions throughout a value holds of all that it is known to hold. -/
theorem of_mem_closures (h : v.Throughout hashes functions) : ∀ f ∈ v.closures, functions f := by
  induction h with
  | array _ ih =>
    intro f hf
    obtain ⟨w, hw, hfw⟩ := mem_closures_array.1 hf
    exact ih w hw f hfw
  | hash _ _ ih =>
    intro f hf
    obtain ⟨p, hp, hfp⟩ := mem_closures_hash.1 hf
    exact ih p hp f hfp
  | function hf => exact List.forall_mem_singleton.2 hf
  | _ => exact List.forall_mem_nil _

theorem elements {vs : List Value} (h : (Value.array vs).Throughout hashes functions) :
    ∀ v ∈ vs, v.Throughout hashes functions := by
  cases h with
  | array h => exact h

theorem entries {es : List (Key × Value)} (h : (Value.hash es).Throughout hashes functions) :
    hashes es ∧ ∀ p ∈ es, p.2.Throughout hashes functions := by
  cases h with
  | hash hes h => exact ⟨hes, h⟩

end Throughout

variable {hashes : List (Key × Value) → Prop} {functions : Closure → Prop}

/-- Whatever holds throughout a value holds throughout its parts.  So it holds of what an operator
or a builtin function gives, once it holds of the operands. -/
theorem hereditary_throughout : Hereditary (Throughout hashes functions) where
  simple {v} hv := by
    cases v with
    | array _ | hash _ | function _ => cases hv
    | _ => constructor
  array := ⟨Throughout.elements, .array⟩
  hash h := h.entries.2

end Value

end MonkeyLang
