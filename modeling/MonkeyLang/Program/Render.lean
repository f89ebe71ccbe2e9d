import MonkeyLang.Program
import MonkeyLang.Text.Separated

/-!
# The text of a program

`Program.render` writes a program on one line, with every operation in parentheses, numbers in
their shortest form and strings in their quotes.

A bare expression carries no semicolon of its own.  One is written after it whenever another
statement follows, because `a` followed by `(-1)` would otherwise read as a call.  A `let` and a
`return` always end with one, which is what keeps them apart from a statement that starts with a
parenthesis or a bracket.

With these semicolons the text of a tree that was read from some text reads back as that tree, up
to the tokens of numerals: `reparse_render`.  Parentheses around each operation are more than
needed.  They are what makes the proof of that independent of precedences, since every operand in a
rendered text starts an expression anew.

The text of a tree that no text spells is a text too, with no promise about it.  A string with a
quote in it and a negative numeral are such trees.
-/

set_option autoImplicit false

namespace MonkeyLang

/-- The text of a truth value. -/
def boolText (b : Bool) : String := if b then "true" else "false"

/-- A parameter list in its parentheses. -/
def parameterText (names : List String) : String := "(" ++ separated ", " names ++ ")"

mutual

/-- The text of an expression. -/
def Expr.render : Expr → String
  | .ident id => id.name
  | .int _ n => Decimal.ofInt n.toInt
  | .string _ text => "\"" ++ text ++ "\""
  | .bool _ b => boolText b
  | .unary _ op operand => "(" ++ op.spelling ++ operand.render ++ ")"
  | .binary _ op left right =>
    "(" ++ left.render ++ " " ++ op.spelling ++ " " ++ right.render ++ ")"
  | .cond _ condition consequence none =>
    "if (" ++ condition.render ++ ") " ++ consequence.render
  | .cond _ condition consequence (some alternative) =>
    "if (" ++ condition.render ++ ") " ++ consequence.render ++ " else " ++ alternative.render
  | .function _ parameters body =>
    "fn" ++ parameterText (parameters.map Identifier.name) ++ " " ++ body.render
  | .call _ callee arguments =>
    callee.render ++ "(" ++ separated ", " (renderExprs arguments) ++ ")"
  | .array _ elements => "[" ++ separated ", " (renderExprs elements) ++ "]"
  | .index _ collection position => "(" ++ collection.render ++ "[" ++ position.render ++ "])"
  | .hash _ pairs => "\x7b" ++ separated ", " (renderPairs pairs) ++ "\x7d"

/-- The texts of expressions. -/
def renderExprs : List Expr → List String
  | [] => []
  | e :: rest => e.render :: renderExprs rest

/-- The texts of the pairs of a hash. -/
def renderPairs : List (Expr × Expr) → List String
  | [] => []
  | (key, value) :: rest => (key.render ++ ": " ++ value.render) :: renderPairs rest

/-- The text of a statement. -/
def Stmt.render : Stmt → String
  | .letStmt _ id value => "let " ++ id.name ++ " = " ++ value.render ++ ";"
  | .returnStmt _ none => "return;"
  | .returnStmt _ (some value) => "return " ++ value.render ++ ";"
  | .exprStmt _ expression => expression.render

/-- The text of a sequence of statements, which reads back as that sequence. -/
def renderStmts : List Stmt → String
  | [] => ""
  | [s] => s.render
  | s :: next :: rest =>
    s.render ++ (if s.isExpr then "; " else " ") ++ renderStmts (next :: rest)

/-- The text of a block. -/
def Block.render : Block → String
  | ⟨_, []⟩ => "\x7b \x7d"
  | ⟨_, s :: rest⟩ => "\x7b " ++ renderStmts (s :: rest) ++ " \x7d"

end

/-- The text of a program. -/
def Program.render (p : Program) : String := renderStmts p.statements

end MonkeyLang
