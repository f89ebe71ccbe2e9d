import MonkeyLang.Proofs.Parse.Grammar
import MonkeyLang.Proofs.Program.Tokens
import MonkeyLang.Proofs.Token.Layout

/-!
# Well-formed programs

A tree is well formed if it could have been written: every node has the token it is written with,
numbers are the values of their numerals, and the names and strings in it can lie in a text.

Trees can be made that are not: with a name that is a keyword, a string with a quote in it, an
integer that is negative, a call whose token is a semicolon.  Such a tree has a text too, which
reads back as something else or not at all.  All programs that the reader keeps are well formed,
whatever is wrong with the text that they are read from (`wellFormed_parse`), so this is the
hypothesis of everything that is said of programs and not of texts.

Being well formed is a matter of single nodes.  In particular it does not ask that operands bind
tighter than their operator, which cannot be seen from a tree.

The conditions on a token are the one that its node fixes, and `TokenKind.WellFormed`, that a text
can hold it.  For symbols and keywords the second one is always true, so it is listed for names,
numbers and strings only.
-/

set_option autoImplicit false

namespace MonkeyLang

open Grammar

/-! ## Well-formed trees -/

/-- The name is that of its token, and it can lie in a text. -/
def Identifier.WellFormed (id : Identifier) : Prop :=
  id.token.kind = .ident id.name ∧ id.token.kind.WellFormed

mutual

/-- The tokens of an expression are those that its nodes are written with.  An integer is at most
the largest one: a numeral that is larger is refused when it is read.  The token of a statement
that is an expression is the token of the expression. -/
def Expr.WellFormed : Expr → Prop
  | .ident id => id.WellFormed
  | .int t n => ∃ numeral, t.kind = .int numeral ∧ t.kind.WellFormed ∧
      Decimal.value numeral.toList < Nat.pow 2 63 ∧
        n = Int64.ofNat (Decimal.value numeral.toList)
  | .string t text => t.kind = .string text ∧ t.kind.WellFormed
  | .bool t b => t.kind = .keyword (if b then .kwTrue else .kwFalse)
  | .unary t op operand =>
    t.kind = .symbol op.symbol ∧ (op = .bang ∨ op = .minus) ∧ operand.WellFormed
  | .binary t op left right =>
    t.kind = .symbol op.symbol ∧ (∃ tier : Tier, op ∈ tier.operators) ∧ left.WellFormed ∧
      right.WellFormed
  | .cond t condition consequence none =>
    t.kind = .keyword .kwIf ∧ condition.WellFormed ∧ consequence.WellFormed
  | .cond t condition consequence (some alternative) =>
    t.kind = .keyword .kwIf ∧ condition.WellFormed ∧ consequence.WellFormed ∧
      alternative.WellFormed
  | .function t parameters body =>
    t.kind = .keyword .kwFunction ∧ (∀ id ∈ parameters, id.WellFormed) ∧ body.WellFormed
  | .call t callee arguments =>
    t.kind = .symbol .leftParen ∧ callee.WellFormed ∧ WellFormedExprs arguments
  | .array t elements => t.kind = .symbol .leftBracket ∧ WellFormedExprs elements
  | .index t collection position =>
    t.kind = .symbol .leftBracket ∧ collection.WellFormed ∧ position.WellFormed
  | .hash t pairs => t.kind = .symbol .leftBrace ∧ WellFormedPairs pairs

def WellFormedExprs : List Expr → Prop
  | [] => True
  | e :: rest => e.WellFormed ∧ WellFormedExprs rest

def WellFormedPairs : List (Expr × Expr) → Prop
  | [] => True
  | (key, value) :: rest => key.WellFormed ∧ value.WellFormed ∧ WellFormedPairs rest

/-- The tokens of a statement are those that it is written with.  A statement that is an expression
keeps the token of the expression. -/
def Stmt.WellFormed : Stmt → Prop
  | .letStmt t id value => t.kind = .keyword .kwLet ∧ id.WellFormed ∧ value.WellFormed
  | .returnStmt t none => t.kind = .keyword .kwReturn
  | .returnStmt t (some value) => t.kind = .keyword .kwReturn ∧ value.WellFormed
  | .exprStmt t expression => t = expression.token ∧ expression.WellFormed

def WellFormedStmts : List Stmt → Prop
  | [] => True
  | s :: rest => s.WellFormed ∧ WellFormedStmts rest

/-- The token of a block is its opening brace. -/
def Block.WellFormed : Block → Prop
  | ⟨t, statements⟩ => t.kind = .symbol .leftBrace ∧ WellFormedStmts statements

end

/-- The tokens of a program are those that it is written with. -/
def Program.WellFormed (p : Program) : Prop := WellFormedStmts p.statements

/-! ## Tokens of well-formed trees

All tokens of a well-formed tree can lie in a text, those of names, numbers and strings by
assumption and the others by being symbols or keywords. -/

/-- A text can hold any symbol. -/
theorem Token.wellFormed_of_symbol {t : Token} {c : Symbol} (h : t.kind = .symbol c) :
    t.kind.WellFormed := by
  rw [h]
  trivial

theorem Token.wellFormed_of_keyword {t : Token} {k : Keyword} (h : t.kind = .keyword k) :
    t.kind.WellFormed := by
  rw [h]
  trivial

mutual

/-- The tokens kept in a well-formed expression can lie in a text. -/
theorem Expr.WellFormed.tokens : ∀ {e : Expr}, e.WellFormed → ∀ t ∈ e.tokens, t.kind.WellFormed
  | .ident _, h => List.forall_mem_singleton.2 h.2
  | .int _ _, ⟨_, _, ht, _⟩ => List.forall_mem_singleton.2 ht
  | .string _ _, h => List.forall_mem_singleton.2 h.2
  | .bool _ _, h => List.forall_mem_singleton.2 (Token.wellFormed_of_keyword h)
  | .unary _ _ _, ⟨ht, _, ha⟩ => List.forall_mem_cons.2 ⟨Token.wellFormed_of_symbol ht, ha.tokens⟩
  | .binary _ _ _ _, ⟨ht, _, ha, hb⟩ => by
    rw [Expr.tokens, List.forall_mem_cons, List.forall_mem_append]
    exact ⟨Token.wellFormed_of_symbol ht, ha.tokens, hb.tokens⟩
  | .cond _ _ _ none, ⟨ht, hc, hb⟩ => by
    rw [Expr.tokens, List.forall_mem_cons, List.forall_mem_append]
    exact ⟨Token.wellFormed_of_keyword ht, hc.tokens, hb.tokens⟩
  | .cond _ _ _ (some _), ⟨ht, hc, hb, hd⟩ => by
    rw [Expr.tokens, List.forall_mem_cons, List.forall_mem_append, List.forall_mem_append]
    exact ⟨Token.wellFormed_of_keyword ht, hc.tokens, hb.tokens, hd.tokens⟩
  | .function _ _ _, ⟨ht, hids, hb⟩ => by
    rw [Expr.tokens, List.forall_mem_cons, List.forall_mem_append, List.forall_mem_map]
    exact ⟨Token.wellFormed_of_keyword ht, fun id hid ↦ (hids id hid).2, hb.tokens⟩
  | .call _ _ _, ⟨ht, hf, has⟩ => by
    rw [Expr.tokens, List.forall_mem_cons, List.forall_mem_append]
    exact ⟨Token.wellFormed_of_symbol ht, hf.tokens, has.tokensOfExprs⟩
  | .array _ _, ⟨ht, has⟩ =>
    List.forall_mem_cons.2 ⟨Token.wellFormed_of_symbol ht, has.tokensOfExprs⟩
  | .index _ _ _, ⟨ht, ha, hi⟩ => by
    rw [Expr.tokens, List.forall_mem_cons, List.forall_mem_append]
    exact ⟨Token.wellFormed_of_symbol ht, ha.tokens, hi.tokens⟩
  | .hash _ _, ⟨ht, hps⟩ =>
    List.forall_mem_cons.2 ⟨Token.wellFormed_of_symbol ht, hps.tokensOfPairs⟩

theorem WellFormedExprs.tokensOfExprs : ∀ {es : List Expr}, WellFormedExprs es →
    ∀ t ∈ tokensOfExprs es, t.kind.WellFormed
  | [], _ => by simp
  | _ :: _, ⟨he, hes⟩ => List.forall_mem_append.2 ⟨he.tokens, hes.tokensOfExprs⟩

theorem WellFormedPairs.tokensOfPairs : ∀ {ps : List (Expr × Expr)}, WellFormedPairs ps →
    ∀ t ∈ tokensOfPairs ps, t.kind.WellFormed
  | [], _ => by simp
  | (_, _) :: _, ⟨hk, hv, hps⟩ => by
    rw [MonkeyLang.tokensOfPairs, List.forall_mem_append, List.forall_mem_append]
    exact ⟨hk.tokens, hv.tokens, hps.tokensOfPairs⟩

theorem Stmt.WellFormed.tokens : ∀ {s : Stmt}, s.WellFormed → ∀ t ∈ s.tokens, t.kind.WellFormed
  | .letStmt _ _ _, ⟨ht, hid, he⟩ => by
    rw [Stmt.tokens, List.forall_mem_cons, List.forall_mem_cons]
    exact ⟨Token.wellFormed_of_keyword ht, hid.2, he.tokens⟩
  | .returnStmt _ none, ht => List.forall_mem_singleton.2 (Token.wellFormed_of_keyword ht)
  | .returnStmt _ (some _), ⟨ht, he⟩ =>
    List.forall_mem_cons.2 ⟨Token.wellFormed_of_keyword ht, he.tokens⟩
  | .exprStmt _ e, ⟨ht, he⟩ => by
    rw [Stmt.tokens, List.forall_mem_cons, ht]
    exact ⟨he.tokens _ e.token_mem_tokens, he.tokens⟩

theorem WellFormedStmts.tokensOfStmts : ∀ {ss : List Stmt}, WellFormedStmts ss →
    ∀ t ∈ tokensOfStmts ss, t.kind.WellFormed
  | [], _ => by simp
  | _ :: _, ⟨hs, hss⟩ => List.forall_mem_append.2 ⟨hs.tokens, hss.tokensOfStmts⟩

theorem Block.WellFormed.tokens : ∀ {b : Block}, b.WellFormed → ∀ t ∈ b.tokens, t.kind.WellFormed
  | ⟨_, _⟩, ⟨ht, hss⟩ =>
    List.forall_mem_cons.2 ⟨Token.wellFormed_of_symbol ht, hss.tokensOfStmts⟩

end

/-- The tokens kept in a well-formed program can lie in a text. -/
theorem Program.WellFormed.tokens {p : Program} (h : p.WellFormed) :
    ∀ t ∈ p.tokens, t.kind.WellFormed :=
  WellFormedStmts.tokensOfStmts h

end MonkeyLang
