import MonkeyLang.Dict
import MonkeyLang.Program

/-!
# Values

What expressions evaluate to.  A function is a closure: parameters, a body, and the scope in which
the function was made.  Scopes can hold functions that were made in them, so a closure names its
scope instead of holding it; `MonkeyLang.Store` says what the name stands for.

Arrays are lists, and hashes are finite maps in the order of their keys.

## What a function is

A function also knows its origin, the literal that it was made from.  Nothing in the language asks
for it.  It is there for a host that compares values, which wants to know whether two functions are
one and the same and not whether they happen to have equal bodies.  The literal is named by the
number of the program and the place in it.  The body alone would not do, because two literals with
the same text are different, and a number for each function would not do either, because two
functions that were made from one literal in one scope are the same.

## Limits

A value with a closure in it means nothing without its store.  Equality of closures as records is
finer than what a host sees: it looks at the body with all its places.  There is no decidable
equality on values for this reason, and `Value.same` is the one that is used.
-/

set_option autoImplicit false

namespace MonkeyLang

/-! ## Types -/

/-- The types of values. -/
inductive ValueType where
  | integer | boolean | string | array | hash | function | builtin | null
deriving DecidableEq

/-- What messages call a type. -/
def ValueType.name : ValueType → String
  | integer => "INTEGER"
  | boolean => "BOOLEAN"
  | string => "STRING"
  | array => "ARRAY"
  | hash => "HASH"
  | function => "FUNCTION"
  | builtin => "BUILTIN"
  | null => "NULL"

/-! ## Builtin functions -/

/-- The functions that are not written in the language.  All programs know the first five by name;
`puts` belongs to the shell.  Which of them a program can call is a matter of names and scopes; the
function itself does not know. -/
inductive Builtin where
  | len | first | last | rest | push | puts
deriving DecidableEq

namespace Builtin

/-- The name of a builtin function. -/
def name : Builtin → String
  | len => "len"
  | first => "first"
  | last => "last"
  | rest => "rest"
  | push => "push"
  | puts => "puts"

/-- The builtin function that a name stands for wherever nothing else is bound to it. -/
def ofName? (name : String) : Option Builtin :=
  [len, first, last, rest, push].find? fun b ↦ b.name == name

end Builtin

/-! ## Keys of hashes -/

/-- The values that can be keys of a hash.  Keys are data without parts, so that they can be
compared and put in order. -/
inductive Key where
  | int (n : Int64)
  | bool (b : Bool)
  | string (text : String)
deriving DecidableEq

namespace Key

/-- The order of keys: integers, then truth values, then strings, each in their own order. -/
def before : Key → Key → Bool
  | int m, int n => decide (m < n)
  | int _, _ => true
  | bool a, bool b => !a && b
  | bool _, string _ => true
  | string a, string b => decide (a < b)
  | _, _ => false

instance : LT Key := ⟨fun a b ↦ a.before b = true⟩

instance : DecidableLT Key := fun a b ↦ inferInstanceAs (Decidable (a.before b = true))

end Key

/-! ## Functions -/

/-- The name of a scope.  Scopes are numbered in the order of their creation.  A number once given
is never given to another scope, so a number is as good as the scope itself. -/
abbrev ScopeId : Type := Nat

/-- Which function literal a function was made from: the program, by the number that it was given
when it was read, and the place of the literal in it. -/
structure Origin where
  unit : Nat
  position : Position
deriving DecidableEq

/-- A function with the scope in which it was made.  The scope is held by its number, and what it
binds is looked up when the function is called.  So a function sees what was bound later, and a
function can be bound in the scope that it holds. -/
structure Closure where
  parameters : List String
  body : Block
  origin : Origin
  scope : ScopeId

/-! ## Values -/

/-- Values.  The pairs of a hash are a list in key order.  That they are in order is no part of the
type, because the type is a nested inductive one. -/
inductive Value where
  | int (n : Int64)
  | bool (b : Bool)
  | string (text : String)
  | array (elements : List Value)
  | hash (entries : List (Key × Value))
  | function (closure : Closure)
  | builtin (builtin : Builtin)
  | null

namespace Value

/-- The type of a value. -/
def type : Value → ValueType
  | int _ => .integer
  | bool _ => .boolean
  | string _ => .string
  | array _ => .array
  | hash _ => .hash
  | function _ => .function
  | builtin _ => .builtin
  | null => .null

/-- Whether a value counts as true: all do but `false` and `null`.  The number zero and the empty
string are true. -/
def truthy : Value → Bool
  | bool b => b
  | null => false
  | _ => true

/-- The key that a value is, if it can be one. -/
def key? : Value → Option Key
  | int n => some (.int n)
  | bool b => some (.bool b)
  | string text => some (.string text)
  | _ => none

end Value

/-- The value that a key is. -/
def Key.toValue : Key → Value
  | int n => .int n
  | bool b => .bool b
  | string text => .string text

@[simp]
theorem Value.key?_toValue (k : Key) : k.toValue.key? = some k := by
  cases k <;> rfl

theorem Key.toValue_of_key? {v : Value} {k : Key} (h : v.key? = some k) : k.toValue = v := by
  cases v <;> simp [Value.key?] at h <;> subst h <;> rfl

end MonkeyLang
