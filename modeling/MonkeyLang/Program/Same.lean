import MonkeyLang.Program

/-!
# Programs up to layout

Two programs are the same when they differ in the places of their tokens only.  The texts of tokens
count: `007` and `7` are different programs, although they have the same value.

The comparison is a function into truth values, one for each kind of tree, which goes through both
trees at once.  It could have been equality after the places are forgotten.  That is a theorem
(`Program.same_iff`) and the better form for proofs; the function is the better one to run, since
it builds no trees and stops at the first difference.  Its recursion is structural in the first
tree, so that it evaluates on closed terms.
-/

set_option autoImplicit false

namespace MonkeyLang

/-- Whether two names are the same up to their places. -/
def Identifier.same (a b : Identifier) : Bool := a.token.sameKind b.token && a.name == b.name

/-- Whether two parameter lists are the same up to places. -/
def sameIdentifiers : List Identifier → List Identifier → Bool
  | [], [] => true
  | a :: as, b :: bs => a.same b && sameIdentifiers as bs
  | _, _ => false

mutual

/-- Whether two expressions are the same up to places. -/
def Expr.same : Expr → Expr → Bool
  | .ident a, .ident b => a.same b
  | .int t m, .int u n => t.sameKind u && m == n
  | .string t a, .string u b => t.sameKind u && a == b
  | .bool t a, .bool u b => t.sameKind u && a == b
  | .unary t op a, .unary u op' a' => t.sameKind u && op == op' && a.same a'
  | .binary t op a b, .binary u op' a' b' => t.sameKind u && op == op' && a.same a' && b.same b'
  | .cond t a b none, .cond u a' b' none => t.sameKind u && a.same a' && b.same b'
  | .cond t a b (some c), .cond u a' b' (some c') =>
    t.sameKind u && a.same a' && b.same b' && c.same c'
  | .function t ps b, .function u ps' b' =>
    t.sameKind u && sameIdentifiers ps ps' && b.same b'
  | .call t a as, .call u a' as' => t.sameKind u && a.same a' && sameExprs as as'
  | .array t as, .array u as' => t.sameKind u && sameExprs as as'
  | .index t a b, .index u a' b' => t.sameKind u && a.same a' && b.same b'
  | .hash t ps, .hash u ps' => t.sameKind u && samePairs ps ps'
  | _, _ => false
termination_by structural x => x

/-- Whether two lists of expressions are the same up to places. -/
def sameExprs : List Expr → List Expr → Bool
  | [], [] => true
  | a :: as, b :: bs => a.same b && sameExprs as bs
  | _, _ => false
termination_by structural x => x

/-- Whether the pairs of two hashes are the same up to places, in the same order. -/
def samePairs : List (Expr × Expr) → List (Expr × Expr) → Bool
  | [], [] => true
  | (a, b) :: ps, (a', b') :: ps' => a.same a' && b.same b' && samePairs ps ps'
  | _, _ => false
termination_by structural x => x

/-- Whether two statements are the same up to places. -/
def Stmt.same : Stmt → Stmt → Bool
  | .letStmt t id a, .letStmt u id' a' => t.sameKind u && id.same id' && a.same a'
  | .returnStmt t none, .returnStmt u none => t.sameKind u
  | .returnStmt t (some a), .returnStmt u (some a') => t.sameKind u && a.same a'
  | .exprStmt t a, .exprStmt u a' => t.sameKind u && a.same a'
  | _, _ => false
termination_by structural x => x

/-- Whether two sequences of statements are the same up to places. -/
def sameStmts : List Stmt → List Stmt → Bool
  | [], [] => true
  | a :: as, b :: bs => a.same b && sameStmts as bs
  | _, _ => false
termination_by structural x => x

/-- Whether two blocks are the same up to places. -/
def Block.same : Block → Block → Bool
  | ⟨t, as⟩, ⟨u, as'⟩ => t.sameKind u && sameStmts as as'
termination_by structural x => x

end

/-- Whether two programs are the same up to places. -/
def Program.same (p q : Program) : Bool := sameStmts p.statements q.statements

end MonkeyLang
