import MonkeyLang.Proofs.Program.WellFormed

/-!
# The nodes of a program

`Program.nodes` lists the expressions and statements of a program, at any depth and inside of
function literals too.

`Node.Proper` says of one node, whatever is below it, that it fits the token that it keeps.  All
nodes of a well-formed program are proper: `Program.WellFormed.proper`.

## Two ways to say it

`Program.WellFormed` says the same by recursion over the tree, and more, in the form that a grammar
needs.  `Node.Proper` is for readers of a program who look at one node and ask what they can rely
on.  It is phrased without the grammar: an identifier is a non-empty word of letters that is no
keyword, an operator between two operands is one of eight, an integer is the value of its numeral
and fits into 63 bits, a truth value has the keyword for it.  Evaluation has branches for nodes of
another form, such as an operator `!` between two operands, and this is why they are never taken.

The token of a node is not always its first one.  A node for an operator between two operands keeps
the token of the operator, which stands in the middle, and calls and indexing keep their opening
bracket.
-/

set_option autoImplicit false

namespace MonkeyLang

open Grammar

/-! ## Listing nodes -/

/-- A node of a program. -/
inductive Node where
  | expr (expression : Expr)
  | stmt (statement : Stmt)

mutual

/-- The nodes of an expression, itself included.  Every node comes before its parts.  Blocks and
lists are no nodes: only what is in them is listed. -/
def Expr.nodes : Expr → List Node
  | .ident id => [.expr (.ident id)]
  | .int t n => [.expr (.int t n)]
  | .string t text => [.expr (.string t text)]
  | .bool t b => [.expr (.bool t b)]
  | .unary t op operand => .expr (.unary t op operand) :: operand.nodes
  | .binary t op left right => .expr (.binary t op left right) :: (left.nodes ++ right.nodes)
  | .cond t condition consequence none =>
    .expr (.cond t condition consequence none) :: (condition.nodes ++ consequence.nodes)
  | .cond t condition consequence (some alternative) =>
    .expr (.cond t condition consequence (some alternative)) ::
      (condition.nodes ++ (consequence.nodes ++ alternative.nodes))
  | .function t parameters body => .expr (.function t parameters body) :: body.nodes
  | .call t callee arguments =>
    .expr (.call t callee arguments) :: (callee.nodes ++ nodesOfExprs arguments)
  | .array t elements => .expr (.array t elements) :: nodesOfExprs elements
  | .index t collection position =>
    .expr (.index t collection position) :: (collection.nodes ++ position.nodes)
  | .hash t pairs => .expr (.hash t pairs) :: nodesOfPairs pairs

def nodesOfExprs : List Expr → List Node
  | [] => []
  | e :: rest => e.nodes ++ nodesOfExprs rest

def nodesOfPairs : List (Expr × Expr) → List Node
  | [] => []
  | (key, value) :: rest => key.nodes ++ (value.nodes ++ nodesOfPairs rest)

/-- The nodes of a statement, itself included. -/
def Stmt.nodes : Stmt → List Node
  | .letStmt t id value => .stmt (.letStmt t id value) :: value.nodes
  | .returnStmt t none => [.stmt (.returnStmt t none)]
  | .returnStmt t (some value) => .stmt (.returnStmt t (some value)) :: value.nodes
  | .exprStmt t expression => .stmt (.exprStmt t expression) :: expression.nodes

def nodesOfStmts : List Stmt → List Node
  | [] => []
  | s :: rest => s.nodes ++ nodesOfStmts rest

/-- The nodes of the statements in a block. -/
def Block.nodes : Block → List Node
  | ⟨_, statements⟩ => nodesOfStmts statements

end

/-- The nodes of a program. -/
def Program.nodes (p : Program) : List Node := nodesOfStmts p.statements

theorem Block.nodes_eq (b : Block) : b.nodes = nodesOfStmts b.statements := by
  cases b
  rw [Block.nodes]

/-! ## Proper nodes -/

/-- The names that stand in a node itself: one that is used, one that is bound, or parameters.  The
names in a node and the rest of it are dealt with separately, since a name can stand in three
places and has to satisfy the same in all of them. -/
def Node.identifiers : Node → List Identifier
  | .expr (.ident id) => [id]
  | .expr (.function _ parameters _) => parameters
  | .stmt (.letStmt _ id _) => [id]
  | _ => []

/-- The name is the text of its token, and a word that is no keyword. -/
structure Identifier.Proper (id : Identifier) : Prop where
  token : id.token.kind = .ident id.name
  nonempty : id.name ≠ ""
  letters : ∀ c ∈ id.name.toList, isLetter c = true
  notKeyword : Keyword.ofWord? id.name = none

/-- The operators that stand between two operands. -/
def Operator.binary : List Operator :=
  [.plus, .minus, .asterisk, .slash, .less, .greater, .equal, .notEqual]

/-- An operator, a literal or a statement that is an expression fits its token. -/
def Node.FitsToken : Node → Prop
  | .expr (.unary t op _) => (op = .bang ∨ op = .minus) ∧ Operator.ofKind? t.kind = some op
  | .expr (.binary t op _ _) => op ∈ Operator.binary ∧ Operator.ofKind? t.kind = some op
  | .expr (.int t n) => ∃ numeral, t.kind = .int numeral ∧
      n.toInt = Decimal.value numeral.toList ∧ 0 ≤ n.toInt ∧ n.toInt < Nat.pow 2 63
  | .expr (.string t text) => t.kind = .string text ∧ '"' ∉ text.toList
  | .expr (.bool t b) =>
    (b = true ↔ t.kind = .keyword .kwTrue) ∧ (b = false ↔ t.kind = .keyword .kwFalse)
  | .stmt (.exprStmt t e) => t = e.token
  | _ => True

/-- The names in a node are proper, and it fits its token. -/
structure Node.Proper (x : Node) : Prop where
  identifiers : ∀ id ∈ x.identifiers, id.Proper
  fits : x.FitsToken

/-! ## Well-formed programs have proper nodes -/

/-- A name that can lie in a text is a word and no keyword. -/
theorem Identifier.WellFormed.proper {id : Identifier} (h : id.WellFormed) : id.Proper := by
  obtain ⟨hkind, hname⟩ := h
  rw [hkind] at hname
  obtain ⟨hne, hletters, hreserved⟩ := hname
  refine ⟨hkind, ?_, hletters, (Keyword.ofWord?_eq_none_iff id.name).2 hreserved⟩
  intro hempty
  exact hne (by rw [hempty]; rfl)

theorem mem_binary_of_mem_operators {tier : Tier} {op : Operator} (h : op ∈ tier.operators) :
    op ∈ Operator.binary := by
  cases tier <;> revert op <;> decide

/-- The value of a numeral that was read is not negative. -/
theorem fitsToken_int {t : Token} {n : Int64} (h : (Expr.int t n).WellFormed) :
    (Node.expr (.int t n)).FitsToken := by
  obtain ⟨numeral, hkind, -, hlimit, rfl⟩ := h
  have hvalue : (Int64.ofNat (Decimal.value numeral.toList)).toInt =
      Decimal.value numeral.toList := Int64.toInt_ofNat_of_lt hlimit
  refine ⟨numeral, hkind, hvalue, ?_, ?_⟩
  · rw [hvalue]
    omega
  · rw [hvalue]
    exact_mod_cast hlimit

/-- A truth value that was read has its own keyword, and not the other one. -/
theorem fitsToken_bool {t : Token} {b : Bool} (h : (Expr.bool t b).WellFormed) :
    (Node.expr (.bool t b)).FitsToken := by
  have hkind : t.kind = .keyword (if b then .kwTrue else .kwFalse) := h
  cases b <;> simp [Node.FitsToken, hkind]

/-- The token of an operator stands for it. -/
theorem ofKind?_of_symbol {t : Token} {op : Operator} (h : t.kind = .symbol op.symbol) :
    Operator.ofKind? t.kind = some op := by
  rw [h, Operator.ofKind?_symbol]

/-- A node without names of its own only has to fit its token. -/
theorem Node.Proper.of_no_names {x : Node} (hnames : x.identifiers = []) (hfits : x.FitsToken) :
    x.Proper :=
  ⟨by simp [hnames], hfits⟩

mutual

theorem Expr.WellFormed.proper : ∀ {e : Expr}, e.WellFormed → ∀ x ∈ e.nodes, x.Proper
  | .ident _, h =>
    List.forall_mem_singleton.2
      ⟨List.forall_mem_singleton.2 (Identifier.WellFormed.proper h), trivial⟩
  | .int _ _, h => List.forall_mem_singleton.2 (.of_no_names rfl (fitsToken_int h))
  | .string t text, h => by
    obtain ⟨hkind, htext⟩ := h
    rw [hkind] at htext
    exact List.forall_mem_singleton.2 (.of_no_names rfl ⟨hkind, htext⟩)
  | .bool _ _, h => List.forall_mem_singleton.2 (.of_no_names rfl (fitsToken_bool h))
  | .unary _ _ _, ⟨hkind, hop, ha⟩ =>
    List.forall_mem_cons.2 ⟨.of_no_names rfl ⟨hop, ofKind?_of_symbol hkind⟩, ha.proper⟩
  | .binary _ _ _ _, ⟨hkind, ⟨_, hop⟩, ha, hb⟩ => by
    rw [Expr.nodes, List.forall_mem_cons, List.forall_mem_append]
    refine ⟨.of_no_names rfl ⟨mem_binary_of_mem_operators hop, ofKind?_of_symbol hkind⟩, ?_⟩
    exact ⟨ha.proper, hb.proper⟩
  | .cond _ _ _ none, ⟨_, hc, hb⟩ => by
    rw [Expr.nodes, List.forall_mem_cons, List.forall_mem_append]
    exact ⟨.of_no_names rfl trivial, hc.proper, hb.proper⟩
  | .cond _ _ _ (some _), ⟨_, hc, hb, hd⟩ => by
    rw [Expr.nodes, List.forall_mem_cons, List.forall_mem_append, List.forall_mem_append]
    exact ⟨.of_no_names rfl trivial, hc.proper, hb.proper, hd.proper⟩
  | .function _ _ _, ⟨_, hids, hb⟩ =>
    List.forall_mem_cons.2 ⟨⟨fun id hid ↦ (hids id hid).proper, trivial⟩, hb.proper⟩
  | .call _ _ _, ⟨_, hf, has⟩ => by
    rw [Expr.nodes, List.forall_mem_cons, List.forall_mem_append]
    exact ⟨.of_no_names rfl trivial, hf.proper, has.proper⟩
  | .array _ _, ⟨_, has⟩ => List.forall_mem_cons.2 ⟨.of_no_names rfl trivial, has.proper⟩
  | .index _ _ _, ⟨_, ha, hi⟩ => by
    rw [Expr.nodes, List.forall_mem_cons, List.forall_mem_append]
    exact ⟨.of_no_names rfl trivial, ha.proper, hi.proper⟩
  | .hash _ _, ⟨_, hps⟩ => List.forall_mem_cons.2 ⟨.of_no_names rfl trivial, hps.proper⟩

theorem WellFormedExprs.proper : ∀ {es : List Expr}, WellFormedExprs es →
    ∀ x ∈ nodesOfExprs es, x.Proper
  | [], _ => by simp [nodesOfExprs]
  | _ :: _, ⟨he, hes⟩ => List.forall_mem_append.2 ⟨he.proper, hes.proper⟩

theorem WellFormedPairs.proper : ∀ {ps : List (Expr × Expr)}, WellFormedPairs ps →
    ∀ x ∈ nodesOfPairs ps, x.Proper
  | [], _ => by simp [nodesOfPairs]
  | (_, _) :: _, ⟨hk, hv, hps⟩ => by
    rw [nodesOfPairs, List.forall_mem_append, List.forall_mem_append]
    exact ⟨hk.proper, hv.proper, hps.proper⟩

theorem Stmt.WellFormed.proper : ∀ {s : Stmt}, s.WellFormed → ∀ x ∈ s.nodes, x.Proper
  | .letStmt _ _ _, ⟨_, hid, he⟩ =>
    List.forall_mem_cons.2 ⟨⟨List.forall_mem_singleton.2 hid.proper, trivial⟩, he.proper⟩
  | .returnStmt _ none, _ => List.forall_mem_singleton.2 (.of_no_names rfl trivial)
  | .returnStmt _ (some _), ⟨_, he⟩ =>
    List.forall_mem_cons.2 ⟨.of_no_names rfl trivial, he.proper⟩
  | .exprStmt _ _, ⟨ht, he⟩ => List.forall_mem_cons.2 ⟨.of_no_names rfl ht, he.proper⟩

theorem WellFormedStmts.proper : ∀ {ss : List Stmt}, WellFormedStmts ss →
    ∀ x ∈ nodesOfStmts ss, x.Proper
  | [], _ => by simp [nodesOfStmts]
  | _ :: _, ⟨hs, hss⟩ => List.forall_mem_append.2 ⟨hs.proper, hss.proper⟩

theorem Block.WellFormed.proper : ∀ {b : Block}, b.WellFormed → ∀ x ∈ b.nodes, x.Proper
  | ⟨_, _⟩, ⟨_, hss⟩ => hss.proper

end

/-- **All nodes of a well-formed program fit their tokens.** -/
theorem Program.WellFormed.proper {p : Program} (h : p.WellFormed) : ∀ x ∈ p.nodes, x.Proper :=
  WellFormedStmts.proper h

end MonkeyLang
