import MonkeyLang.Value

/-!
# Scopes

A `Store` holds every scope that was made, numbered in the order of creation.  A scope has bindings
of its own and may stand inside an outer one, which is always an older scope; a name is looked up
from the inside out.  Writing changes one scope only and never which scope is its outer one.

A handle to a scope is its number, so handles can be copied freely: all copies see the same scope.
Numbers are never used again and scopes are never removed, although a scope that nothing refers to
could be.  Nobody could tell the difference, since a scope that nothing refers to cannot be asked
for anything.

Functions hold the number of the scope that they were made in, and that scope may well hold the
function.  In the store such a circle is harmless: only the way outward is ever followed, and it
leads to smaller numbers.  `Store.lookup` checks that it does before each step, which makes it end
on every store, even on one that no program could have made.  In the stores that do occur the check
never fails (`Store.WellFormed.finds_lookup`).
-/

set_option autoImplicit false

namespace MonkeyLang

/-- The bindings made in one scope, and the scope around it. -/
structure Scope where
  bindings : List (String × Value)
  outer : Option ScopeId

/-- All scopes.  Scopes are only ever added, and nothing is thrown away.  A scope that cannot be
reached any more takes up space and does no harm. -/
structure Store where
  scopes : Array Scope

namespace Store

/-- No scopes. -/
def empty : Store := ⟨#[]⟩

/-- The number of scopes, which is also the name of the next one. -/
def size (s : Store) : Nat := s.scopes.size

/-- A scope by its name. -/
def scope? (s : Store) (id : ScopeId) : Option Scope := s.scopes[id]?

/-- Make a new scope; its name is the size of the store before. -/
def add (s : Store) (scope : Scope) : Store := ⟨s.scopes.push scope⟩

/-- Give a name a value in one scope, whatever the scopes around it say. -/
def bind (s : Store) (id : ScopeId) (name : String) (value : Value) : Store :=
  ⟨s.scopes.modify id fun scope ↦
    { scope with bindings := Dict.insert scope.bindings name value }⟩

/-- The value of a name seen from a scope: the binding in the nearest scope that has one. -/
def lookup (s : Store) (id : ScopeId) (name : String) : Option Value :=
  match s.scope? id with
  | none => none
  | some scope =>
    match Dict.get? scope.bindings name with
    | some value => some value
    | none =>
      match scope.outer with
      | none => none
      | some outer => if outer < id then lookup s outer name else none
termination_by id

end Store

end MonkeyLang
