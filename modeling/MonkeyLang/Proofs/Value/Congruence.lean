import Mathlib.Data.List.Forall2
import MonkeyLang.Proofs.Dict
import MonkeyLang.Value.Operation

/-!
# Relations that operations respect

Indexing and the builtin functions look at the outermost layer of their operands and pass on the
parts.  So they respect any relation `R` between values that can be read off layer by layer
(`Value.Layer`) and put together again: a `Value.Congruence`.  For related operands they give
related results or the same error, which is `Value.Congruence.applyIndex` and
`Value.Congruence.builtin_result`.

Nothing is asked about functions, because no operation looks into one, nor about the order of the
entries of a hash.

Likewise a property of values that is one of their parts, a `Value.Hereditary` one, is passed on
from operands to results.

## Uses

There are two relations of this kind.  Values that look alike have functions in corresponding
scopes, and the relation is carried through a whole evaluation.  Values that are equal for a host
have the same data with the pairs of hashes in any order.  An operation is gone through case by
case here, once, and neither of them has to do it again; if a builtin function is added, this is
the place where it is dealt with.

A property is a relation too, namely equality of values that have it
(`Value.Hereditary.congruence`), so that the properties that evaluation keeps come from the same
lemmas.  There it is essential that a congruence needs to be no equivalence: equality of values
with a property is not reflexive.

## Limits

Operators are not covered.  Whatever they give has no parts (`isCompound_applyBinary`), so there is
nothing to put together, and what holds of them is stronger: operands that are alike give the very
same result (`applyBinary_eq`).
-/

set_option autoImplicit false

namespace MonkeyLang

/-! ## Results -/

/-- Results that are alike: values that are, or the same error.  Errors have to be equal, texts and
all. -/
def AlikeResults {α : Type} (R : α → α → Prop) : Except EvalError α → Except EvalError α → Prop
  | .ok v, .ok w => R v w
  | .error e, .error e' => e' = e
  | _, _ => False

/-- Results that are alike stay so under a relation that is wider on them. -/
theorem AlikeResults.imp {α : Type} {R S : α → α → Prop} {r r' : Except EvalError α}
    (h : AlikeResults R r r') (hRS : ∀ v w, r = .ok v → r' = .ok w → R v w → S v w) :
    AlikeResults S r r' := by
  cases r <;> cases r'
  · exact h
  · exact h
  · exact h
  · exact hRS _ _ rfl rfl h

/-- Functions that respect relations can be applied to results. -/
theorem AlikeResults.map {α β : Type} {R : α → α → Prop} {S : β → β → Prop} {f g : α → β}
    {r r' : Except EvalError α} (h : AlikeResults R r r') (hfg : ∀ v w, R v w → S (f v) (g w)) :
    AlikeResults S (r.map f) (r'.map g) := by
  cases r <;> cases r'
  · exact h
  · exact h
  · exact h
  · exact hfg _ _ h

/-- Related options are both missing or both there. -/
theorem optionRel_cases {α β : Type} {R : α → β → Prop} {x : Option α} {y : Option β}
    (h : Option.Rel R x y) : (x = none ∧ y = none) ∨ ∃ a b, x = some a ∧ y = some b ∧ R a b := by
  cases h with
  | none => exact .inl ⟨rfl, rfl⟩
  | some hab => exact .inr ⟨_, _, rfl, rfl, hab⟩

/-! ## Operators -/

/-- Whether a value has parts that programs cannot compare: arrays, hashes and functions.  Equality
of programs is false for them, even of a value with itself. -/
def Value.isCompound : Value → Bool
  | .array _ | .hash _ | .function _ => true
  | _ => false

/-- An operator gives no compound value. -/
theorem isCompound_applyUnary {op : Operator} {v w : Value} (h : applyUnary op v = .ok w) :
    w.isCompound = false := by
  unfold applyUnary at h
  split at h <;> cases h <;> rfl

theorem isCompound_applyBinary {op : Operator} {a b w : Value} (h : applyBinary op a b = .ok w) :
    w.isCompound = false := by
  unfold applyBinary at h
  split at h
  · unfold applyToInts at h
    split at h
    case h_4 =>
      split at h <;> cases h
      rfl
    all_goals cases h <;> rfl
  · unfold applyToStrings at h
    split at h <;> cases h
    rfl
  · split at h <;> cases h <;> rfl

/-! ## Layers -/

namespace Value

/-- Two values with the same outermost layer and related parts.  A layer of a hash says for each
key that both hashes have related values there, or neither has one.  It does not say that the pairs
come in the same order.  Functions are related in any case, for the layer does not look into them.
-/
inductive Layer (R : Value → Value → Prop) : Value → Value → Prop
  | int (n : Int64) : Layer R (.int n) (.int n)
  | bool (b : Bool) : Layer R (.bool b) (.bool b)
  | string (text : String) : Layer R (.string text) (.string text)
  | array {vs ws : List Value} (h : List.Forall₂ R vs ws) : Layer R (.array vs) (.array ws)
  | hash {es fs : List (Key × Value)}
      (h : ∀ k, Option.Rel R (Dict.get? es k) (Dict.get? fs k)) : Layer R (.hash es) (.hash fs)
  | function (f g : Closure) : Layer R (.function f) (.function g)
  | builtin (b : Builtin) : Layer R (.builtin b) (.builtin b)
  | null : Layer R .null .null

namespace Layer

variable {R : Value → Value → Prop} {v w : Value}

/-- The type is read off the outermost layer. -/
theorem type_eq (h : Layer R v w) : w.type = v.type := by cases h <;> rfl

theorem truthy_eq (h : Layer R v w) : w.truthy = v.truthy := by cases h <;> rfl

/-- Keys have no parts, so a layer is enough to know a value as a key. -/
theorem requireKey_eq (h : Layer R v w) : requireKey w = requireKey v := by cases h <;> rfl

end Layer

/-- Related values have related layers, and what operations make of related parts is related.
Relations that are carried through an evaluation are of this kind, and the lemmas below are stated
once for all of them. -/
structure Congruence (R : Value → Value → Prop) : Prop where
  layer : ∀ {v w : Value}, R v w → Layer R v w
  int : ∀ n : Int64, R (.int n) (.int n)
  array : ∀ {vs ws : List Value}, List.Forall₂ R vs ws → R (.array vs) (.array ws)
  null : R .null .null

namespace Congruence

variable {R : Value → Value → Prop}

/-! ## Indexing -/

theorem optionGetD (hR : Congruence R) {x y : Option Value} (h : Option.Rel R x y) :
    R (x.getD .null) (y.getD .null) := by
  cases h with
  | none => exact hR.null
  | some hvw => exact hvw

/-- Lists of related values have related elements at every index, in range or not. -/
theorem elementAt (hR : Congruence R) {vs ws : List Value} (h : List.Forall₂ R vs ws)
    (i : Int64) : R (elementAt vs i) (elementAt ws i) := by
  have hgetD : ∀ n : Nat, R (vs.getD n .null) (ws.getD n .null) := by
    intro n
    induction h generalizing n with
    | nil => exact hR.null
    | cons hvw _ ih =>
      cases n with
      | zero => exact hvw
      | succ n => exact ih n
  rw [MonkeyLang.elementAt, MonkeyLang.elementAt]
  split
  · exact hR.null
  · exact hgetD _

/-- **Indexing respects the relation.** -/
theorem applyIndex (hR : Congruence R) {a a' b b' : Value} (ha : R a a') (hb : R b b') :
    AlikeResults R (applyIndex a b) (applyIndex a' b') := by
  have hlayer := hR.layer hb
  cases hR.layer ha with
  | array hall =>
    cases hlayer with
    | int i => exact hR.elementAt hall i
    | _ => exact hR.null
  | hash hall =>
    rw [MonkeyLang.applyIndex, MonkeyLang.applyIndex, hlayer.requireKey_eq]
    cases requireKey b with
    | ok k => exact hR.optionGetD (hall k)
    | error e => rfl
  | _ => rfl

/-! ## Builtin functions

`first`, `last` and `rest` take part of an array, `push` makes an array longer, `len` makes a
number, and `puts` gives `null` whatever it gets.  The others check how many arguments they got and
of what type these are, and their complaints tell no more than that. -/

/-- Whether an argument is an array depends on its layer, and the message if it is not depends on
its type. -/
theorem requireArray (hR : Congruence R) (b : Builtin) {v w : Value} (h : R v w) :
    AlikeResults (List.Forall₂ R) (requireArray b v) (requireArray b w) := by
  cases hR.layer h with
  | array hall => exact hall
  | _ => rfl

theorem lengthOf (hR : Congruence R) {v w : Value} (h : R v w) :
    AlikeResults R (lengthOf v) (lengthOf w) := by
  cases hR.layer h with
  | array hall =>
    rw [MonkeyLang.lengthOf, MonkeyLang.lengthOf, hall.length_eq]
    exact hR.int _
  | string text => exact hR.int _
  | _ => rfl

theorem withoutFirst (hR : Congruence R) {vs ws : List Value} (h : List.Forall₂ R vs ws) :
    R (withoutFirst vs) (withoutFirst ws) := by
  cases h with
  | nil => exact hR.null
  | cons _ hrest => exact hR.array hrest

theorem headD (hR : Congruence R) {vs ws : List Value} (h : List.Forall₂ R vs ws) :
    R (vs.headD .null) (ws.headD .null) := by
  cases h with
  | nil => exact hR.null
  | cons hvw _ => exact hvw

theorem getLastD {vs ws : List Value} (h : List.Forall₂ R vs ws) {last last' : Value}
    (hlast : R last last') : R (vs.getLastD last) (ws.getLastD last') := by
  induction h generalizing last last' with
  | nil => exact hlast
  | cons hvw _ ih =>
    rw [List.getLastD_cons, List.getLastD_cons]
    exact ih hvw

/-- A builtin function that wants one argument, whatever it does with it. -/
theorem withOne {f : Value → Except EvalError Value}
    (hf : ∀ {v w : Value}, R v w → AlikeResults R (f v) (f w)) {vs ws : List Value}
    (h : List.Forall₂ R vs ws) : AlikeResults R (withOne vs f) (withOne ws f) := by
  cases h with
  | nil => rfl
  | cons hvw hrest =>
    cases hrest with
    | nil => exact hf hvw
    | cons _ hmore =>
      simp only [MonkeyLang.withOne, AlikeResults, List.length_cons, hmore.length_eq]

/-- A builtin function on an array that gives part of it. -/
theorem withOne_array (hR : Congruence R) (b : Builtin) {part : List Value → Value}
    (hpart : ∀ {es fs : List Value}, List.Forall₂ R es fs → R (part es) (part fs))
    {vs ws : List Value} (h : List.Forall₂ R vs ws) :
    AlikeResults R (MonkeyLang.withOne vs fun v ↦ (MonkeyLang.requireArray b v).map part)
      (MonkeyLang.withOne ws fun v ↦ (MonkeyLang.requireArray b v).map part) := by
  refine withOne (fun {v w} hvw ↦ ?_) h
  exact (hR.requireArray b hvw).map fun _ _ ↦ hpart

theorem push (hR : Congruence R) {vs ws : List Value} (h : List.Forall₂ R vs ws) :
    AlikeResults R (Builtin.push.result vs) (Builtin.push.result ws) := by
  cases h with
  | nil => rfl
  | cons hvw hrest =>
    cases hrest with
    | nil => rfl
    | cons hnew hmore =>
      cases hmore with
      | nil =>
        refine (hR.requireArray .push hvw).map fun as bs hall ↦ hR.array ?_
        exact List.rel_append hall (.cons hnew .nil)
      | cons _ hothers =>
        simp only [Builtin.result, AlikeResults, List.length_cons, hothers.length_eq]

/-- **The builtin functions respect the relation.** Each of them looks at one layer of its argument
and puts the parts together again. -/
theorem builtin_result (hR : Congruence R) (b : Builtin) {vs ws : List Value}
    (h : List.Forall₂ R vs ws) : AlikeResults R (b.result vs) (b.result ws) := by
  cases b with
  | len => exact withOne hR.lengthOf h
  | first => exact hR.withOne_array .first hR.headD h
  | last => exact hR.withOne_array .last (fun hall ↦ getLastD hall hR.null) h
  | rest => exact hR.withOne_array .rest hR.withoutFirst h
  | push => exact hR.push h
  | puts => exact hR.null

end Congruence

/-! ## Properties that parts have too -/

/-- A property that values with no parts have, and others if and only if their parts do.  The
converse for hashes is not asked for, because no operation makes a hash: a hash that comes out of
an operation was part of one of the operands.  From a property one gets a congruence, equality of
values that have it, and so the lemmas about congruences are lemmas about properties too. -/
structure Hereditary (P : Value → Prop) : Prop where
  simple : ∀ {v : Value}, v.isCompound = false → P v
  array : ∀ {vs : List Value}, P (.array vs) ↔ ∀ v ∈ vs, P v
  hash : ∀ {es : List (Key × Value)}, P (.hash es) → ∀ p ∈ es, P p.2

namespace Hereditary

variable {P : Value → Prop}

theorem forall₂_iff {vs ws : List Value} :
    List.Forall₂ (fun v w ↦ P v ∧ v = w) vs ws ↔ (∀ v ∈ vs, P v) ∧ vs = ws := by
  rw [List.forall₂_and_left, List.forall₂_eq_eq_eq]

/-- Equality of values with the property is a congruence. -/
theorem congruence (hP : Hereditary P) : Congruence fun v w ↦ P v ∧ v = w where
  layer := by
    rintro v _ ⟨hv, rfl⟩
    cases v with
    | array vs => exact .array (forall₂_iff.2 ⟨hP.array.1 hv, rfl⟩)
    | hash es =>
      refine .hash fun k ↦ ?_
      cases hget : Dict.get? es k with
      | none => exact .none
      | some w => exact .some ⟨hP.hash hv _ (Dict.mem_of_get? hget), rfl⟩
    | _ => constructor
  int _ := ⟨hP.simple rfl, rfl⟩
  array h := by
    obtain ⟨hvs, rfl⟩ := forall₂_iff.1 h
    exact ⟨hP.array.2 hvs, rfl⟩
  null := ⟨hP.simple rfl, rfl⟩

/-- What is found at an index has the property if both operands do. -/
theorem applyIndex (hP : Hereditary P) {a b w : Value} (ha : P a) (hb : P b)
    (h : applyIndex a b = .ok w) : P w := by
  have halike := hP.congruence.applyIndex ⟨ha, rfl⟩ ⟨hb, rfl⟩
  rw [h] at halike
  exact halike.1

/-- What a builtin function gives has the property if all arguments do. -/
theorem builtin_result (hP : Hereditary P) (b : Builtin) {vs : List Value} {w : Value}
    (hvs : ∀ v ∈ vs, P v) (h : b.result vs = .ok w) : P w := by
  have halike := hP.congruence.builtin_result b (forall₂_iff.2 ⟨hvs, rfl⟩)
  rw [h] at halike
  exact halike.1

end Hereditary

end Value

end MonkeyLang
