import MonkeyLang.Value

/-!
# The functions held in a value

A value can hold functions: it is one, or it is an array or a hash with functions somewhere in it.
`Value.closures` lists them, to any depth.

Keys of hashes are data and hold none.  A function is not looked into: what the scope of a closure
binds may be functions again, but it belongs to the store and not to the value, and it changes
while the value stays the same.  Whatever is said of `Value.closures` is therefore about the value
alone, and what is reached through scopes is a matter of invariants of the store.
-/

set_option autoImplicit false

namespace MonkeyLang

mutual

/-- The functions held in a value.  They are listed at any depth, in the order in which the value
lists its parts.  Functions are not looked into: what their scopes hold is the business of the
store. -/
def Value.closures : Value → List Closure
  | .array elements => closuresOfValues elements
  | .hash entries => closuresOfEntries entries
  | .function f => [f]
  | .int _ | .bool _ | .string _ | .builtin _ | .null => []

def closuresOfValues : List Value → List Closure
  | [] => []
  | v :: rest => v.closures ++ closuresOfValues rest

def closuresOfEntries : List (Key × Value) → List Closure
  | [] => []
  | (_, v) :: rest => v.closures ++ closuresOfEntries rest

end

/-- A function in a list of values is in one of them. -/
theorem mem_closuresOfValues {f : Closure} {vs : List Value} :
    f ∈ closuresOfValues vs ↔ ∃ v ∈ vs, f ∈ v.closures := by
  induction vs with
  | nil => simp [closuresOfValues]
  | cons v vs ih => simp [closuresOfValues, ih]

theorem mem_closuresOfEntries {f : Closure} {es : List (Key × Value)} :
    f ∈ closuresOfEntries es ↔ ∃ p ∈ es, f ∈ p.2.closures := by
  induction es with
  | nil => simp [closuresOfEntries]
  | cons p es ih => simp [closuresOfEntries, ih]

theorem Value.mem_closures_array {f : Closure} {vs : List Value} :
    f ∈ (Value.array vs).closures ↔ ∃ v ∈ vs, f ∈ v.closures := by
  rw [Value.closures, mem_closuresOfValues]

theorem Value.mem_closures_hash {f : Closure} {es : List (Key × Value)} :
    f ∈ (Value.hash es).closures ↔ ∃ p ∈ es, f ∈ p.2.closures := by
  rw [Value.closures, mem_closuresOfEntries]

end MonkeyLang
