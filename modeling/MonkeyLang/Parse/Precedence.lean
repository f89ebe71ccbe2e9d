import MonkeyLang.Program

/-!
# How tightly operators bind

An expression is an operand followed by operators with their right sides, by calls and by indexes.
`Precedence.ofKind` says how tightly a token binds what stands before it, and `continuation?` says
in which of the three ways it continues an expression.

The two functions have to agree: a token that binds tighter than some level continues an
expression.  If one did not, the reader would stop before a token that it was promised it could
read on from.  They are two functions and not one because the reader asks for the level while it
decides whether to go on, and for the kind of continuation after it has taken the token.
`Grammar.continuation?_ne_none` says that they agree.

The level `unary` belongs to no token that stands after an operand.  It is the level at which the
operand of a unary operator is read, above all operations and below calls and indexes, so that `-a
* b` negates `a` and `-a[0]` negates the element.
-/

set_option autoImplicit false

namespace MonkeyLang

/-- The levels of binding, the loosest first. -/
inductive Precedence where
  | lowest | equality | comparison | sum | product | unary | application
deriving DecidableEq

namespace Precedence

/-- The levels in order. -/
def rank : Precedence → Nat
  | lowest => 0
  | equality => 1
  | comparison => 2
  | sum => 3
  | product => 4
  | unary => 5
  | application => 6

instance : LT Precedence := ⟨fun a b ↦ a.rank < b.rank⟩

instance (a b : Precedence) : Decidable (a < b) := Nat.decLt a.rank b.rank

/-- How tightly a token binds the expression before it; `lowest` if it does not continue one. -/
def ofKind : TokenKind → Precedence
  | .symbol .equal | .symbol .notEqual => equality
  | .symbol .less | .symbol .greater => comparison
  | .symbol .plus | .symbol .minus => sum
  | .symbol .asterisk | .symbol .slash => product
  | .symbol .leftParen | .symbol .leftBracket => application
  | _ => lowest

end Precedence

/-- The ways to continue an expression. -/
inductive Continuation where
  /-- An operator and its right side. -/
  | operation
  /-- Arguments in parentheses. -/
  | call
  /-- An index in brackets. -/
  | index
deriving DecidableEq

/-- The way in which a token continues the expression before it. -/
def continuation? : TokenKind → Option Continuation
  | .symbol .plus | .symbol .minus | .symbol .asterisk | .symbol .slash
  | .symbol .less | .symbol .greater | .symbol .equal | .symbol .notEqual => some .operation
  | .symbol .leftParen => some .call
  | .symbol .leftBracket => some .index
  | _ => none

end MonkeyLang
