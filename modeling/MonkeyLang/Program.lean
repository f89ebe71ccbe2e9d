import MonkeyLang.Token

/-!
# Programs

The tree of a program: expressions, statements, and blocks of statements.  Every node keeps the
token that it was read from, which for an operation is the token of its operator, for a call the
opening parenthesis and for an index the opening bracket.  Parentheses leave no node of their own.

The tokens are there for messages and for comparison, and evaluation looks at one of them only: the
place of a function literal is part of the identity of the functions that are made from it.
Nothing forces the token of a node to fit the node.  A numeral may carry a token with another
numeral, and an operation one of another operator.  The trees that are read from texts do fit
(`Expr.WellFormed`), and the renderer and the evaluator give an answer for the others too, so that
they need no proof that a tree is a good one.

The four types are mutually inductive, with lists of expressions and lists of pairs nested in them.
Functions on trees therefore come in families of six or seven, one for each type and one for each
kind of list, and so do the lemmas about them.
-/

set_option autoImplicit false

namespace MonkeyLang

/-! ## Operators -/

/-- The operators.  `bang` stands before its operand, `minus` before one or between two, the others
between two.  The readers and the evaluation take the same operators apart in different ways, so
this is one type and not two. -/
inductive Operator where
  | bang | minus | plus | asterisk | slash | less | greater | equal | notEqual
deriving DecidableEq

namespace Operator

/-- The symbol of an operator. -/
def symbol : Operator → Symbol
  | bang => .bang
  | minus => .minus
  | plus => .plus
  | asterisk => .asterisk
  | slash => .slash
  | less => .less
  | greater => .greater
  | equal => .equal
  | notEqual => .notEqual

/-- How an operator is written. -/
def spelling (op : Operator) : String := op.symbol.spelling

/-- The operator that a token stands for, if it stands for one. -/
def ofKind? : TokenKind → Option Operator
  | .symbol .bang => some bang
  | .symbol .minus => some minus
  | .symbol .plus => some plus
  | .symbol .asterisk => some asterisk
  | .symbol .slash => some slash
  | .symbol .less => some less
  | .symbol .greater => some greater
  | .symbol .equal => some equal
  | .symbol .notEqual => some notEqual
  | _ => none

theorem ofKind?_symbol (op : Operator) : ofKind? (.symbol op.symbol) = some op := by
  cases op <;> rfl

end Operator

/-! ## Trees -/

/-- A name at a place in the program. -/
structure Identifier where
  token : Token
  name : String
deriving DecidableEq

mutual

/-- Expressions.  Each node keeps a token beside what it says.  For most nodes this is the token
that it starts with, for an operation it is the operator, and for a call or an index the opening
bracket. -/
inductive Expr where
  | ident (id : Identifier)
  | int (token : Token) (value : Int64)
  | string (token : Token) (value : String)
  | bool (token : Token) (value : Bool)
  | unary (token : Token) (operator : Operator) (operand : Expr)
  | binary (token : Token) (operator : Operator) (left right : Expr)
  | cond (token : Token) (condition : Expr) (consequence : Block) (alternative : Option Block)
  | function (token : Token) (parameters : List Identifier) (body : Block)
  | call (token : Token) (callee : Expr) (arguments : List Expr)
  | array (token : Token) (elements : List Expr)
  | index (token : Token) (collection position : Expr)
  | hash (token : Token) (pairs : List (Expr × Expr))

/-- Statements. -/
inductive Stmt where
  | letStmt (token : Token) (id : Identifier) (value : Expr)
  | returnStmt (token : Token) (value : Option Expr)
  | exprStmt (token : Token) (expression : Expr)

/-- Statements in braces. -/
structure Block where
  token : Token
  statements : List Stmt

end

/-- A whole program. -/
structure Program where
  statements : List Stmt

/-! ## Tokens of nodes -/

/-- The token that an expression was read from. -/
def Expr.token : Expr → Token
  | .ident id => id.token
  | .int t _ | .string t _ | .bool t _ | .unary t _ _ | .binary t _ _ _ | .cond t _ _ _
  | .function t _ _ | .call t _ _ | .array t _ | .index t _ _ | .hash t _ => t

/-- The token that a statement was read from. -/
def Stmt.token : Stmt → Token
  | .letStmt t _ _ | .returnStmt t _ | .exprStmt t _ => t

/-- Whether a statement binds a name. -/
def Stmt.isLet : Stmt → Bool
  | .letStmt _ _ _ => true
  | _ => false

/-- Whether a statement is a bare expression.  In the text of a program such a statement needs a
semicolon to be told from the next one. -/
def Stmt.isExpr : Stmt → Bool
  | .exprStmt _ _ => true
  | _ => false

/-- The text of the token that a program starts with. -/
def Program.literal (p : Program) : String :=
  match p.statements with
  | [] => ""
  | s :: _ => s.token.literal

/-- Whether the last statement of a program binds a name.  A shell asks this to find out whether a
value is worth showing. -/
def Program.endsWithLet (p : Program) : Bool :=
  match p.statements.getLast? with
  | some s => s.isLet
  | none => false

end MonkeyLang
