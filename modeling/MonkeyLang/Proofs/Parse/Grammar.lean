import MonkeyLang.Program

/-!
# The grammar

Which sequences of tokens are programs, and which program each of them is.  The grammar is written
down as relations between tokens and trees, one for each kind of construct.

Expressions are stratified: `Phrase tier tokens e` says that `tokens` are the expression `e` and
that nothing in it binds looser than `tier`, except inside brackets.  The operators of a tier group
to the left, so the left side of an operation belongs to the same tier and the right side to the
next one.

A statement may end without a semicolon, but then it must not go on with what follows it.  Hence
statements are related to the token after them as well: `Sentence tokens next s`.

`Derives tokens p` is the start of the grammar.

## What it is for

The grammar says what the language is without saying how it is read.  There are no precedences as
numbers in it, no loop over operators and no recovery from errors.  It imports the syntax trees and
nothing of the reader.  What is read without error is exactly what the grammar derives
(`parseProgram_eq_ok_iff`), which also shows that no tokens have two trees.

## Points where readers could differ

* A sign is a tier of its own below calls and indexes, so `-a[0]` is the negative of an element,
  and `-a * b` is a product.
* An integer has to be below the limit.  A numeral that is too large is no phrase at all.
* Semicolons are optional, everywhere.  Without them the longest expression is meant: a statement
  that is an expression cannot be followed by a parenthesis or an operator, which would belong to
  it.
* A `return` without a value stands before a semicolon, a closing brace or the end of the input.
* Only the pairs of a hash may have a comma behind the last one.

An empty list of elements is a case of its own in `Listed`, and not a list of no items, so that
commas are between elements and never without them.
-/

set_option autoImplicit false

namespace MonkeyLang
namespace Grammar

/-! ## Tiers -/

/-- The strata of expressions, the loosest first: the four tiers of operators between operands,
signs in front of an operand, calls and indexes after one, and what needs no brackets at all. -/
inductive Tier where
  | equality | comparison | sum | product | unary | application | atom
deriving DecidableEq

namespace Tier

/-- The next tighter tier.  The tiers form a chain.  `Tier.next` goes one step up and stops at the
top, which spares a case distinction in `Phrase.tighter`. -/
def next : Tier → Tier
  | equality => comparison
  | comparison => sum
  | sum => product
  | product => unary
  | unary => application
  | application => atom
  | atom => atom

/-- The operators between operands that belong to a tier. -/
def operators : Tier → List Operator
  | equality => [.equal, .notEqual]
  | comparison => [.less, .greater]
  | sum => [.plus, .minus]
  | product => [.asterisk, .slash]
  | unary | application | atom => []

end Tier

/-! ## What can follow -/

/-- The token after some tokens: the first of `tokens`, or `next` if there are none. -/
def following (tokens : List Token) (next : Token) : Token := tokens.headD next

/-- The tokens that make an expression longer when they follow it: operators between operands, and
opening parentheses and brackets. -/
def Continues (kind : TokenKind) : Prop :=
  (∃ tier : Tier, ∃ op ∈ tier.operators, kind = .symbol op.symbol) ∨
    kind = .symbol .leftParen ∨ kind = .symbol .leftBracket

/-- How a statement with an expression at its end is closed: by a semicolon, or by nothing if the
next token does not make the expression longer. -/
def Closing (tokens : List Token) (next : Token) : Prop :=
  (∃ t, tokens = [t] ∧ t.kind = .symbol .semicolon) ∨ tokens = [] ∧ ¬ Continues next.kind

/-- The tokens before which a `return` has no value. -/
def EndsReturn (kind : TokenKind) : Prop :=
  kind = .symbol .semicolon ∨ kind = .symbol .rightBrace ∨ kind = .eof

/-! ## Parameters -/

/-- One name or more, with commas between them. -/
inductive Names : List Token → List Identifier → Prop
  | one {t : Token} {name : String} (ht : t.kind = .ident name) : Names [t] [⟨t, name⟩]
  | cons {t comma : Token} {name : String} {tokens : List Token} {ids : List Identifier}
      (ht : t.kind = .ident name) (hcomma : comma.kind = .symbol .comma)
      (rest : Names tokens ids) : Names (t :: comma :: tokens) (⟨t, name⟩ :: ids)

/-- The parameters of a function, without the parentheses.  Only names stand there: a parameter is
no expression, so that a call with arguments and a list of parameters are different constructs
although they look alike. -/
inductive Parameters : List Token → List Identifier → Prop
  | none : Parameters [] []
  | some {tokens : List Token} {ids : List Identifier} (h : Names tokens ids) :
      Parameters tokens ids

/-! ## Expressions, statements and blocks

One constructor for each production.  Hypotheses with a token say of which kind it is; its place
does not matter. -/

mutual

/-- Expressions of a tier. -/
inductive Phrase : Tier → List Token → Expr → Prop
  | tighter {tier : Tier} {xs : List Token} {e : Expr} (h : Phrase tier.next xs e) :
      Phrase tier xs e
  | operation {tier : Tier} {xs ys : List Token} {t : Token} {op : Operator} {a b : Expr}
      (hop : op ∈ tier.operators) (ht : t.kind = .symbol op.symbol) (left : Phrase tier xs a)
      (right : Phrase tier.next ys b) : Phrase tier (xs ++ t :: ys) (.binary t op a b)
  | sign {xs : List Token} {t : Token} {op : Operator} {a : Expr} (hop : op = .bang ∨ op = .minus)
      (ht : t.kind = .symbol op.symbol) (operand : Phrase .unary xs a) :
      Phrase .unary (t :: xs) (.unary t op a)
  | call {xs ys : List Token} {t close : Token} {f : Expr} {arguments : List Expr}
      (callee : Phrase .application xs f) (ht : t.kind = .symbol .leftParen)
      (list : Listed ys arguments) (hclose : close.kind = .symbol .rightParen) :
      Phrase .application (xs ++ t :: (ys ++ [close])) (.call t f arguments)
  | index {xs ys : List Token} {t close : Token} {a i : Expr}
      (collection : Phrase .application xs a) (ht : t.kind = .symbol .leftBracket)
      (position : Phrase .equality ys i) (hclose : close.kind = .symbol .rightBracket) :
      Phrase .application (xs ++ t :: (ys ++ [close])) (.index t a i)
  | ident {t : Token} {name : String} (ht : t.kind = .ident name) :
      Phrase .atom [t] (.ident ⟨t, name⟩)
  | int {t : Token} {digits : String} (ht : t.kind = .int digits)
      (hlimit : Decimal.value digits.toList < Nat.pow 2 63) :
      Phrase .atom [t] (.int t (Int64.ofNat (Decimal.value digits.toList)))
  | string {t : Token} {text : String} (ht : t.kind = .string text) :
      Phrase .atom [t] (.string t text)
  | boolTrue {t : Token} (ht : t.kind = .keyword .kwTrue) : Phrase .atom [t] (.bool t true)
  | boolFalse {t : Token} (ht : t.kind = .keyword .kwFalse) : Phrase .atom [t] (.bool t false)
  | group {xs : List Token} {t close : Token} {e : Expr} (ht : t.kind = .symbol .leftParen)
      (inner : Phrase .equality xs e) (hclose : close.kind = .symbol .rightParen) :
      Phrase .atom (t :: (xs ++ [close])) e
  | cond {xs ys : List Token} {t left right : Token} {c : Expr} {b : Block}
      (ht : t.kind = .keyword .kwIf) (hleft : left.kind = .symbol .leftParen)
      (condition : Phrase .equality xs c) (hright : right.kind = .symbol .rightParen)
      (consequence : Enclosed ys b) :
      Phrase .atom (t :: left :: (xs ++ right :: ys)) (.cond t c b none)
  | condElse {xs ys zs : List Token} {t left right kwElse : Token} {c : Expr} {b d : Block}
      (ht : t.kind = .keyword .kwIf) (hleft : left.kind = .symbol .leftParen)
      (condition : Phrase .equality xs c) (hright : right.kind = .symbol .rightParen)
      (consequence : Enclosed ys b) (helse : kwElse.kind = .keyword .kwElse)
      (alternative : Enclosed zs d) :
      Phrase .atom (t :: left :: (xs ++ right :: (ys ++ kwElse :: zs))) (.cond t c b (some d))
  | function {xs ys : List Token} {t left right : Token} {ids : List Identifier} {b : Block}
      (ht : t.kind = .keyword .kwFunction) (hleft : left.kind = .symbol .leftParen)
      (parameters : Parameters xs ids) (hright : right.kind = .symbol .rightParen)
      (body : Enclosed ys b) :
      Phrase .atom (t :: left :: (xs ++ right :: ys)) (.function t ids b)
  | array {xs : List Token} {t close : Token} {elements : List Expr}
      (ht : t.kind = .symbol .leftBracket) (list : Listed xs elements)
      (hclose : close.kind = .symbol .rightBracket) :
      Phrase .atom (t :: (xs ++ [close])) (.array t elements)
  | hash {xs : List Token} {t close : Token} {pairs : List (Expr × Expr)}
      (ht : t.kind = .symbol .leftBrace) (list : Paired xs pairs)
      (hclose : close.kind = .symbol .rightBrace) :
      Phrase .atom (t :: (xs ++ [close])) (.hash t pairs)

/-- One expression or more, with commas between them. -/
inductive Items : List Token → List Expr → Prop
  | one {xs : List Token} {e : Expr} (h : Phrase .equality xs e) : Items xs [e]
  | cons {xs ys : List Token} {comma : Token} {e : Expr} {es : List Expr}
      (h : Phrase .equality xs e) (hcomma : comma.kind = .symbol .comma) (rest : Items ys es) :
      Items (xs ++ comma :: ys) (e :: es)

/-- Any number of expressions, with commas between them. -/
inductive Listed : List Token → List Expr → Prop
  | none : Listed [] []
  | some {xs : List Token} {es : List Expr} (h : Items xs es) : Listed xs es

/-- The pairs of a hash, with commas between them and possibly one after the last. -/
inductive Paired : List Token → List (Expr × Expr) → Prop
  | none : Paired [] []
  | one {xs ys : List Token} {colon : Token} {k v : Expr} (key : Phrase .equality xs k)
      (hcolon : colon.kind = .symbol .colon) (value : Phrase .equality ys v) :
      Paired (xs ++ colon :: ys) [(k, v)]
  | cons {xs ys zs : List Token} {colon comma : Token} {k v : Expr} {pairs : List (Expr × Expr)}
      (key : Phrase .equality xs k) (hcolon : colon.kind = .symbol .colon)
      (value : Phrase .equality ys v) (hcomma : comma.kind = .symbol .comma)
      (rest : Paired zs pairs) : Paired (xs ++ colon :: (ys ++ comma :: zs)) ((k, v) :: pairs)

/-- Statements in braces. -/
inductive Enclosed : List Token → Block → Prop
  | mk {xs : List Token} {t close : Token} {statements : List Stmt}
      (ht : t.kind = .symbol .leftBrace) (h : Sentences xs close statements)
      (hclose : close.kind = .symbol .rightBrace) : Enclosed (t :: (xs ++ [close])) ⟨t, statements⟩

/-- One statement in front of the token `next`. -/
inductive Sentence : List Token → Token → Stmt → Prop
  | letStmt {xs ys : List Token} {t id assign next : Token} {name : String} {e : Expr}
      (ht : t.kind = .keyword .kwLet) (hid : id.kind = .ident name)
      (hassign : assign.kind = .symbol .assign) (value : Phrase .equality xs e)
      (hend : Closing ys next) :
      Sentence (t :: id :: assign :: (xs ++ ys)) next (.letStmt t ⟨id, name⟩ e)
  | returnValue {xs ys : List Token} {t next : Token} {e : Expr} (ht : t.kind = .keyword .kwReturn)
      (value : Phrase .equality xs e) (hend : Closing ys next) :
      Sentence (t :: (xs ++ ys)) next (.returnStmt t (some e))
  | returnNothing {ys : List Token} {t next : Token} (ht : t.kind = .keyword .kwReturn)
      (hys : ys = [] ∨ ∃ semicolon : Token, ys = [semicolon] ∧ semicolon.kind = .symbol .semicolon)
      (hend : EndsReturn (following ys next).kind) :
      Sentence (t :: ys) next (.returnStmt t none)
  | expression {xs ys : List Token} {next : Token} {e : Expr} (value : Phrase .equality xs e)
      (hend : Closing ys next) : Sentence (xs ++ ys) next (.exprStmt e.token e)

/-- Statements one after the other in front of the token `next`. -/
inductive Sentences : List Token → Token → List Stmt → Prop
  | none {next : Token} : Sentences [] next []
  | cons {xs ys : List Token} {next : Token} {s : Stmt} {ss : List Stmt}
      (first : Sentence xs (following ys next) s) (rest : Sentences ys next ss) :
      Sentences (xs ++ ys) next (s :: ss)

end

/-- The tokens are the program `p`: its statements, and then the end of the input. -/
def Derives (tokens : List Token) (p : Program) : Prop :=
  ∃ xs finish, tokens = xs ++ [finish] ∧ finish.kind = .eof ∧ Sentences xs finish p.statements

end Grammar
end MonkeyLang
