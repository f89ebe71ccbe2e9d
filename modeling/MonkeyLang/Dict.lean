/-!
# Finite maps in key order

A finite map is a list of pairs with increasing keys, so that two maps with the same entries are
the same list, in whichever order the entries came.  Both the bindings of a scope and the hashes of
the language are such maps.

`Dict.get?_insert_self` and `Dict.get?_insert_of_ne` say what looking up sees of an insertion.
They hold of any list of pairs; the order of the keys matters for the list as a whole only.

The alternatives were a function from keys to values and a search tree.  A function cannot be
printed or compared, and both are done to hashes.  A tree is faster, but a value of the language
would then contain a tree with proofs about its shape, and values are a nested inductive type that
has no room for them.  The list is plain data.  That its keys increase is a property that insertion
keeps (`Dict.Increasing.insert`), and it is stated only where it is needed.

The cost is that an insertion takes time linear in the size of the map.  Scopes and hashes of
programs are small, and a bound on the time is not what the development is about.
-/

set_option autoImplicit false

namespace MonkeyLang
namespace Dict

variable {κ ν : Type} [DecidableEq κ] [LT κ] [DecidableLT κ]

/-- The value of a key. -/
def get? : List (κ × ν) → κ → Option ν
  | [], _ => none
  | (k, v) :: rest, key => if k = key then some v else get? rest key

/-- Give a key a value, in place of the one that it had. -/
def insert : List (κ × ν) → κ → ν → List (κ × ν)
  | [], key, value => [(key, value)]
  | (k, v) :: rest, key, value =>
    if k = key then (key, value) :: rest
    else if key < k then (key, value) :: (k, v) :: rest
    else (k, v) :: insert rest key value

/-- Insert pairs one after the other, so that the last value of a key stays. -/
def insertAll (entries : List (κ × ν)) (pairs : List (κ × ν)) : List (κ × ν) :=
  pairs.foldl (fun d p ↦ insert d p.1 p.2) entries

/-- The keys in order. -/
def keys (entries : List (κ × ν)) : List κ := entries.map Prod.fst

@[simp]
theorem get?_insert_self (entries : List (κ × ν)) (key : κ) (value : ν) :
    get? (insert entries key value) key = some value := by
  induction entries with
  | nil => simp [insert, get?]
  | cons p rest ih =>
    obtain ⟨k, v⟩ := p
    by_cases hk : k = key
    · simp [insert, get?, hk]
    · by_cases hlt : key < k <;> simp [insert, get?, hk, hlt, ih]

theorem get?_insert_of_ne (entries : List (κ × ν)) {key other : κ} (value : ν)
    (h : other ≠ key) : get? (insert entries key value) other = get? entries other := by
  induction entries with
  | nil => simp [insert, get?, h.symm]
  | cons p rest ih =>
    obtain ⟨k, v⟩ := p
    by_cases hk : k = key
    · subst hk
      simp [insert, get?, h.symm]
    · by_cases hlt : key < k <;> simp [insert, get?, hk, hlt, ih, h.symm]

end Dict
end MonkeyLang
