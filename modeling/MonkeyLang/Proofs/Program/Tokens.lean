import MonkeyLang.Program.Render
import MonkeyLang.Program.Same

/-!
# The tokens kept in a program

A program keeps tokens in its nodes.  `Program.tokens` lists them and `Program.mapTokens` changes
them one by one, with everything else as it is.

Two programs are the same up to places when they become equal as their tokens lose their places
(`Program.same_iff`).  The text of a program does not depend on its tokens
(`Program.render_mapTokens`).

## One change for many

Forgetting places, shortening numerals, moving a program to another place in a text, and whatever
distinguishes two layouts of a text: all of these change the tokens of a program and leave the rest
alone.  `mapTokens` is the one function for them.  To compare two changes it suffices to compare
them on the tokens that occur (`Program.mapTokens_eq_iff`), and one change after another is one
change.

A change may be any function, even one that turns a number into a bracket.  Nothing in this module
needs to exclude that, and evaluation never looks at the kind of a token in a program anyway.

The trees are three mutual types with lists in them, so every recursion over a program comes as six
functions, and every fact about one as six theorems.  The theorem about programs is the one to use;
the others are what its induction consists of.
-/

set_option autoImplicit false

namespace MonkeyLang

/-! ## Changing tokens

The function is applied to each token of the tree.  The two forms of a conditional are separate
cases, as they are in every recursion over trees here: recursion through an option would not be
structural.  `Expr.mapTokens_cond` joins them. -/

/-- The same name at another token. -/
def Identifier.mapToken (f : Token → Token) (id : Identifier) : Identifier := ⟨f id.token, id.name⟩

mutual

/-- The expression with `f` applied to its tokens.  The tree is the same otherwise.  A value, a
name or an operator that is read off a token stays what it was, so the result may be a tree that no
text has. -/
def Expr.mapTokens (f : Token → Token) : Expr → Expr
  | .ident id => .ident (id.mapToken f)
  | .int t n => .int (f t) n
  | .string t text => .string (f t) text
  | .bool t b => .bool (f t) b
  | .unary t op operand => .unary (f t) op (operand.mapTokens f)
  | .binary t op left right => .binary (f t) op (left.mapTokens f) (right.mapTokens f)
  | .cond t condition consequence none =>
    .cond (f t) (condition.mapTokens f) (consequence.mapTokens f) none
  | .cond t condition consequence (some alternative) =>
    .cond (f t) (condition.mapTokens f) (consequence.mapTokens f) (some (alternative.mapTokens f))
  | .function t parameters body =>
    .function (f t) (parameters.map (Identifier.mapToken f)) (body.mapTokens f)
  | .call t callee arguments =>
    .call (f t) (callee.mapTokens f) (mapTokensExprs f arguments)
  | .array t elements => .array (f t) (mapTokensExprs f elements)
  | .index t collection position => .index (f t) (collection.mapTokens f) (position.mapTokens f)
  | .hash t pairs => .hash (f t) (mapTokensPairs f pairs)

def mapTokensExprs (f : Token → Token) : List Expr → List Expr
  | [] => []
  | e :: rest => e.mapTokens f :: mapTokensExprs f rest

def mapTokensPairs (f : Token → Token) : List (Expr × Expr) → List (Expr × Expr)
  | [] => []
  | (key, value) :: rest => (key.mapTokens f, value.mapTokens f) :: mapTokensPairs f rest

/-- The statement with `f` applied to its tokens. -/
def Stmt.mapTokens (f : Token → Token) : Stmt → Stmt
  | .letStmt t id value => .letStmt (f t) (id.mapToken f) (value.mapTokens f)
  | .returnStmt t none => .returnStmt (f t) none
  | .returnStmt t (some value) => .returnStmt (f t) (some (value.mapTokens f))
  | .exprStmt t expression => .exprStmt (f t) (expression.mapTokens f)

def mapTokensStmts (f : Token → Token) : List Stmt → List Stmt
  | [] => []
  | s :: rest => s.mapTokens f :: mapTokensStmts f rest

/-- The block with `f` applied to its tokens. -/
def Block.mapTokens (f : Token → Token) : Block → Block
  | ⟨t, statements⟩ => ⟨f t, mapTokensStmts f statements⟩

end

/-- The program with `f` applied to its tokens. -/
def Program.mapTokens (f : Token → Token) (p : Program) : Program := ⟨mapTokensStmts f p.statements⟩

/-! ## Listing tokens -/

mutual

/-- The tokens kept in an expression.  They come in the order in which the nodes list them, which
is not quite that of the text, because operators come first. -/
def Expr.tokens : Expr → List Token
  | .ident id => [id.token]
  | .int t _ | .string t _ | .bool t _ => [t]
  | .unary t _ operand => t :: operand.tokens
  | .binary t _ left right => t :: (left.tokens ++ right.tokens)
  | .cond t condition consequence none => t :: (condition.tokens ++ consequence.tokens)
  | .cond t condition consequence (some alternative) =>
    t :: (condition.tokens ++ (consequence.tokens ++ alternative.tokens))
  | .function t parameters body => t :: (parameters.map Identifier.token ++ body.tokens)
  | .call t callee arguments => t :: (callee.tokens ++ tokensOfExprs arguments)
  | .array t elements => t :: tokensOfExprs elements
  | .index t collection position => t :: (collection.tokens ++ position.tokens)
  | .hash t pairs => t :: tokensOfPairs pairs

def tokensOfExprs : List Expr → List Token
  | [] => []
  | e :: rest => e.tokens ++ tokensOfExprs rest

def tokensOfPairs : List (Expr × Expr) → List Token
  | [] => []
  | (key, value) :: rest => key.tokens ++ (value.tokens ++ tokensOfPairs rest)

/-- The tokens kept in a statement. -/
def Stmt.tokens : Stmt → List Token
  | .letStmt t id value => t :: id.token :: value.tokens
  | .returnStmt t none => [t]
  | .returnStmt t (some value) => t :: value.tokens
  | .exprStmt t expression => t :: expression.tokens

def tokensOfStmts : List Stmt → List Token
  | [] => []
  | s :: rest => s.tokens ++ tokensOfStmts rest

/-- The tokens kept in a block. -/
def Block.tokens : Block → List Token
  | ⟨t, statements⟩ => t :: tokensOfStmts statements

end

/-- The tokens kept in a program. -/
def Program.tokens (p : Program) : List Token := tokensOfStmts p.statements

attribute [simp] Identifier.mapToken Expr.mapTokens mapTokensExprs mapTokensPairs Stmt.mapTokens
  mapTokensStmts Block.mapTokens Expr.tokens tokensOfExprs tokensOfPairs Stmt.tokens tokensOfStmts
  Block.tokens

/-- The token of an expression is changed like all others. -/
theorem Expr.token_mapTokens (f : Token → Token) (e : Expr) :
    (e.mapTokens f).token = f e.token := by
  match e with
  | .ident _ | .int _ _ | .string _ _ | .bool _ _ | .unary _ _ _ | .binary _ _ _ _
  | .cond _ _ _ none | .cond _ _ _ (some _) | .function _ _ _ | .call _ _ _ | .array _ _
  | .index _ _ _ | .hash _ _ => simp [Expr.token]

/-- The token of an expression is one of its tokens. -/
theorem Expr.token_mem_tokens (e : Expr) : e.token ∈ e.tokens := by
  match e with
  | .ident _ | .int _ _ | .string _ _ | .bool _ _ | .unary _ _ _ | .binary _ _ _ _
  | .cond _ _ _ none | .cond _ _ _ (some _) | .function _ _ _ | .call _ _ _ | .array _ _
  | .index _ _ _ | .hash _ _ => simp [Expr.token]

/-! ## Two changes compared -/

/-- Two changes of the tokens agree on a list of names if they agree on its tokens. -/
theorem map_mapToken_eq_iff (f g : Token → Token) (ids : List Identifier) :
    ids.map (Identifier.mapToken f) = ids.map (Identifier.mapToken g) ↔
      ∀ t ∈ ids.map Identifier.token, f t = g t := by
  induction ids with
  | nil => simp
  | cons id ids ih => simp [ih]

mutual

/-- Two changes of the tokens agree on an expression if they agree on its tokens.  One lemma for
each kind of tree, here and below. -/
theorem Expr.mapTokens_eq_iff (f g : Token → Token) : ∀ e : Expr,
    e.mapTokens f = e.mapTokens g ↔ ∀ t ∈ e.tokens, f t = g t
  | .ident id => by simp
  | .int t n => by simp
  | .string t text => by simp
  | .bool t b => by simp
  | .unary t op a => by simp [a.mapTokens_eq_iff f g]
  | .binary t op a b => by
    simp [a.mapTokens_eq_iff f g, b.mapTokens_eq_iff f g, or_imp, forall_and]
  | .cond t c b none => by
    simp [c.mapTokens_eq_iff f g, b.mapTokens_eq_iff f g, or_imp, forall_and]
  | .cond t c b (some d) => by
    simp [c.mapTokens_eq_iff f g, b.mapTokens_eq_iff f g,
      d.mapTokens_eq_iff f g, or_imp, forall_and]
  | .function t ids b => by
    simp only [Expr.mapTokens, Expr.tokens, Expr.function.injEq, List.forall_mem_cons,
      List.forall_mem_append, map_mapToken_eq_iff, b.mapTokens_eq_iff f g]
  | .call t a as => by
    simp [a.mapTokens_eq_iff f g, mapTokensExprs_eq_iff f g as, or_imp,
      forall_and]
  | .array t as => by simp [mapTokensExprs_eq_iff f g as]
  | .index t a b => by
    simp [a.mapTokens_eq_iff f g, b.mapTokens_eq_iff f g, or_imp, forall_and]
  | .hash t ps => by simp [mapTokensPairs_eq_iff f g ps]

theorem mapTokensExprs_eq_iff (f g : Token → Token) : ∀ es : List Expr,
    mapTokensExprs f es = mapTokensExprs g es ↔ ∀ t ∈ tokensOfExprs es, f t = g t
  | [] => by simp
  | e :: es => by
    simp [e.mapTokens_eq_iff f g, mapTokensExprs_eq_iff f g es,
      or_imp, forall_and]

theorem mapTokensPairs_eq_iff (f g : Token → Token) : ∀ ps : List (Expr × Expr),
    mapTokensPairs f ps = mapTokensPairs g ps ↔ ∀ t ∈ tokensOfPairs ps, f t = g t
  | [] => by simp
  | (k, v) :: ps => by
    simp [k.mapTokens_eq_iff f g, v.mapTokens_eq_iff f g,
      mapTokensPairs_eq_iff f g ps, or_imp, forall_and, and_assoc]

theorem Stmt.mapTokens_eq_iff (f g : Token → Token) : ∀ s : Stmt,
    s.mapTokens f = s.mapTokens g ↔ ∀ t ∈ s.tokens, f t = g t
  | .letStmt t id e => by
    simp [e.mapTokens_eq_iff f g]
  | .returnStmt t none => by simp
  | .returnStmt t (some e) => by simp [e.mapTokens_eq_iff f g]
  | .exprStmt t e => by simp [e.mapTokens_eq_iff f g]

theorem mapTokensStmts_eq_iff (f g : Token → Token) : ∀ ss : List Stmt,
    mapTokensStmts f ss = mapTokensStmts g ss ↔ ∀ t ∈ tokensOfStmts ss, f t = g t
  | [] => by simp
  | s :: ss => by
    simp [s.mapTokens_eq_iff f g, mapTokensStmts_eq_iff f g ss,
      or_imp, forall_and]

theorem Block.mapTokens_eq_iff (f g : Token → Token) : ∀ b : Block,
    b.mapTokens f = b.mapTokens g ↔ ∀ t ∈ b.tokens, f t = g t
  | ⟨t, ss⟩ => by simp [mapTokensStmts_eq_iff f g ss]

end

/-- Two changes of the tokens agree on a program if they agree on its tokens. -/
theorem Program.mapTokens_eq_iff (f g : Token → Token) (p : Program) :
    p.mapTokens f = p.mapTokens g ↔ ∀ t ∈ p.tokens, f t = g t := by
  rw [mapTokens, mapTokens, Program.mk.injEq]
  exact mapTokensStmts_eq_iff f g p.statements

/-! ## One change after another -/

mutual

/-- Two changes of an expression, one after the other, are one change. -/
theorem Expr.mapTokens_mapTokens (f g : Token → Token) : ∀ e : Expr,
    (e.mapTokens f).mapTokens g = e.mapTokens (g ∘ f)
  | .ident _ | .int _ _ | .string _ _ | .bool _ _ => by simp
  | .unary _ _ a => by simp [a.mapTokens_mapTokens f g]
  | .binary _ _ a b => by simp [a.mapTokens_mapTokens f g, b.mapTokens_mapTokens f g]
  | .cond _ c b none => by simp [c.mapTokens_mapTokens f g, b.mapTokens_mapTokens f g]
  | .cond _ c b (some d) => by
    simp [c.mapTokens_mapTokens f g, b.mapTokens_mapTokens f g, d.mapTokens_mapTokens f g]
  | .function _ ids b => by simp [b.mapTokens_mapTokens f g]
  | .call _ a as => by simp [a.mapTokens_mapTokens f g, mapTokensExprs_mapTokensExprs f g as]
  | .array _ as => by simp [mapTokensExprs_mapTokensExprs f g as]
  | .index _ a b => by simp [a.mapTokens_mapTokens f g, b.mapTokens_mapTokens f g]
  | .hash _ ps => by simp [mapTokensPairs_mapTokensPairs f g ps]

theorem mapTokensExprs_mapTokensExprs (f g : Token → Token) : ∀ es : List Expr,
    mapTokensExprs g (mapTokensExprs f es) = mapTokensExprs (g ∘ f) es
  | [] => by simp
  | e :: es => by simp [e.mapTokens_mapTokens f g, mapTokensExprs_mapTokensExprs f g es]

theorem mapTokensPairs_mapTokensPairs (f g : Token → Token) : ∀ ps : List (Expr × Expr),
    mapTokensPairs g (mapTokensPairs f ps) = mapTokensPairs (g ∘ f) ps
  | [] => by simp
  | (k, v) :: ps => by
    simp [k.mapTokens_mapTokens f g, v.mapTokens_mapTokens f g,
      mapTokensPairs_mapTokensPairs f g ps]

theorem Stmt.mapTokens_mapTokens (f g : Token → Token) : ∀ s : Stmt,
    (s.mapTokens f).mapTokens g = s.mapTokens (g ∘ f)
  | .letStmt _ _ e => by simp [e.mapTokens_mapTokens f g]
  | .returnStmt _ none => by simp
  | .returnStmt _ (some e) => by simp [e.mapTokens_mapTokens f g]
  | .exprStmt _ e => by simp [e.mapTokens_mapTokens f g]

theorem mapTokensStmts_mapTokensStmts (f g : Token → Token) : ∀ ss : List Stmt,
    mapTokensStmts g (mapTokensStmts f ss) = mapTokensStmts (g ∘ f) ss
  | [] => by simp
  | s :: ss => by simp [s.mapTokens_mapTokens f g, mapTokensStmts_mapTokensStmts f g ss]

theorem Block.mapTokens_mapTokens (f g : Token → Token) : ∀ b : Block,
    (b.mapTokens f).mapTokens g = b.mapTokens (g ∘ f)
  | ⟨_, ss⟩ => by simp [mapTokensStmts_mapTokensStmts f g ss]

end

/-- Statements are changed one by one. -/
theorem mapTokensStmts_append (f : Token → Token) (ss ss' : List Stmt) :
    mapTokensStmts f (ss ++ ss') = mapTokensStmts f ss ++ mapTokensStmts f ss' := by
  induction ss with
  | nil => simp
  | cons s ss ih => simp [ih]

/-- One change after another is one change. -/
theorem Program.mapTokens_mapTokens (f g : Token → Token) (p : Program) :
    (p.mapTokens f).mapTokens g = p.mapTokens (g ∘ f) := by
  rw [mapTokens, mapTokens, mapTokens, mapTokensStmts_mapTokensStmts]

/-! ## No change -/

/-- Names do not change if their tokens do not. -/
theorem map_mapToken_id (ids : List Identifier) : ids.map (Identifier.mapToken id) = ids :=
  List.map_id ids

mutual

/-- An expression does not change if its tokens do not. -/
theorem Expr.mapTokens_id : ∀ e : Expr, e.mapTokens id = e
  | .ident _ | .int _ _ | .string _ _ | .bool _ _ => by simp
  | .unary _ _ a => by simp [a.mapTokens_id]
  | .binary _ _ a b => by simp [a.mapTokens_id, b.mapTokens_id]
  | .cond _ c b none => by simp [c.mapTokens_id, b.mapTokens_id]
  | .cond _ c b (some d) => by simp [c.mapTokens_id, b.mapTokens_id, d.mapTokens_id]
  | .function _ ids b => by rw [Expr.mapTokens, map_mapToken_id, b.mapTokens_id, id]
  | .call _ a as => by simp [a.mapTokens_id, mapTokensExprs_id as]
  | .array _ as => by simp [mapTokensExprs_id as]
  | .index _ a b => by simp [a.mapTokens_id, b.mapTokens_id]
  | .hash _ ps => by simp [mapTokensPairs_id ps]

theorem mapTokensExprs_id : ∀ es : List Expr, mapTokensExprs id es = es
  | [] => by simp
  | e :: es => by simp [e.mapTokens_id, mapTokensExprs_id es]

theorem mapTokensPairs_id : ∀ ps : List (Expr × Expr), mapTokensPairs id ps = ps
  | [] => by simp
  | (k, v) :: ps => by simp [k.mapTokens_id, v.mapTokens_id, mapTokensPairs_id ps]

theorem Stmt.mapTokens_id : ∀ s : Stmt, s.mapTokens id = s
  | .letStmt _ _ e => by simp [e.mapTokens_id]
  | .returnStmt _ none => by simp
  | .returnStmt _ (some e) => by simp [e.mapTokens_id]
  | .exprStmt _ e => by simp [e.mapTokens_id]

theorem mapTokensStmts_id : ∀ ss : List Stmt, mapTokensStmts id ss = ss
  | [] => by simp
  | s :: ss => by simp [s.mapTokens_id, mapTokensStmts_id ss]

theorem Block.mapTokens_id : ∀ b : Block, b.mapTokens id = b
  | ⟨_, ss⟩ => by simp [mapTokensStmts_id ss]

end

/-! ## Texts do not depend on tokens -/

@[simp]
theorem Stmt.isExpr_mapTokens (f : Token → Token) (s : Stmt) :
    (s.mapTokens f).isExpr = s.isExpr := by
  match s with
  | .letStmt _ _ _ | .returnStmt _ none | .returnStmt _ (some _) | .exprStmt _ _ =>
    simp [Stmt.isExpr]

mutual

/-- The text of an expression does not depend on its tokens: operators, names and values are kept
in the nodes beside them. -/
theorem Expr.render_mapTokens (f : Token → Token) : ∀ e : Expr, (e.mapTokens f).render = e.render
  | .ident _ | .int _ _ | .string _ _ | .bool _ _ => by simp [Expr.render]
  | .unary _ _ a => by simp [Expr.render, a.render_mapTokens f]
  | .binary _ _ a b => by simp [Expr.render, a.render_mapTokens f, b.render_mapTokens f]
  | .cond _ c b none => by simp [Expr.render, c.render_mapTokens f, b.render_mapTokens f]
  | .cond _ c b (some d) => by
    simp [Expr.render, c.render_mapTokens f, b.render_mapTokens f, d.render_mapTokens f]
  | .function _ ids b => by simp [Expr.render, b.render_mapTokens f, Function.comp_def]
  | .call _ a as => by simp [Expr.render, a.render_mapTokens f, renderExprs_mapTokensExprs f as]
  | .array _ as => by simp [Expr.render, renderExprs_mapTokensExprs f as]
  | .index _ a b => by simp [Expr.render, a.render_mapTokens f, b.render_mapTokens f]
  | .hash _ ps => by simp [Expr.render, renderPairs_mapTokensPairs f ps]

theorem renderExprs_mapTokensExprs (f : Token → Token) : ∀ es : List Expr,
    renderExprs (mapTokensExprs f es) = renderExprs es
  | [] => by simp
  | e :: es => by simp [renderExprs, e.render_mapTokens f, renderExprs_mapTokensExprs f es]

theorem renderPairs_mapTokensPairs (f : Token → Token) : ∀ ps : List (Expr × Expr),
    renderPairs (mapTokensPairs f ps) = renderPairs ps
  | [] => by simp
  | (k, v) :: ps => by
    simp [renderPairs, k.render_mapTokens f, v.render_mapTokens f, renderPairs_mapTokensPairs f ps]

theorem Stmt.render_mapTokens (f : Token → Token) : ∀ s : Stmt, (s.mapTokens f).render = s.render
  | .letStmt _ _ e => by simp [Stmt.render, e.render_mapTokens f]
  | .returnStmt _ none => by simp [Stmt.render]
  | .returnStmt _ (some e) => by simp [Stmt.render, e.render_mapTokens f]
  | .exprStmt _ e => by simp [Stmt.render, e.render_mapTokens f]

theorem renderStmts_mapTokensStmts (f : Token → Token) : ∀ ss : List Stmt,
    renderStmts (mapTokensStmts f ss) = renderStmts ss
  | [] => by simp
  | [s] => by simp [renderStmts, s.render_mapTokens f]
  | s :: next :: rest => by
    have ih := renderStmts_mapTokensStmts f (next :: rest)
    simp only [mapTokensStmts] at ih ⊢
    rw [renderStmts, renderStmts, ih, s.render_mapTokens f, s.isExpr_mapTokens f]

theorem Block.render_mapTokens (f : Token → Token) : ∀ b : Block,
    (b.mapTokens f).render = b.render
  | ⟨_, []⟩ => by simp [Block.render]
  | ⟨_, s :: rest⟩ => by
    have ih := renderStmts_mapTokensStmts f (s :: rest)
    simp only [mapTokensStmts] at ih
    simp only [Block.mapTokens, mapTokensStmts, Block.render, ih]

end

/-- The text of a program does not depend on its tokens. -/
theorem Program.render_mapTokens (f : Token → Token) (p : Program) :
    (p.mapTokens f).render = p.render :=
  renderStmts_mapTokensStmts f p.statements

/-! ## Programs up to places

`Program.same` compares trees node by node.  Forgetting the places on both sides and comparing the
results is the same. -/

/-- A token without its place.  All tokens are moved to one place, the first one of a text.  Which
one it is does not matter. -/
def Token.forget (t : Token) : Token := ⟨t.kind, .start⟩

@[simp]
theorem Token.forget_eq_forget_iff (t u : Token) : t.forget = u.forget ↔ t.kind = u.kind := by
  simp [forget]

/-- Lists of names are the same if they become equal without their places. -/
theorem sameIdentifiers_iff (as bs : List Identifier) : sameIdentifiers as bs = true ↔
    as.map (Identifier.mapToken Token.forget) = bs.map (Identifier.mapToken Token.forget) := by
  induction as generalizing bs with
  | nil => cases bs <;> simp [sameIdentifiers]
  | cons a as ih => cases bs <;> simp [sameIdentifiers, Identifier.same, ih]

/-- A conditional with an alternative and one without in one equation. -/
@[simp]
theorem Expr.mapTokens_cond (f : Token → Token) (t : Token) (c : Expr) (b : Block)
    (d : Option Block) : (Expr.cond t c b d).mapTokens f =
      .cond (f t) (c.mapTokens f) (b.mapTokens f) (d.map (Block.mapTokens f)) := by
  cases d <;> simp

mutual

/-- The comparison that leaves out places is equality without places, for each kind of tree. -/
theorem Expr.same_iff : ∀ a b : Expr,
    a.same b = true ↔ a.mapTokens Token.forget = b.mapTokens Token.forget
  | .ident _, b => by cases b <;> simp [Expr.same, Identifier.same]
  | .int _ _, b => by cases b <;> simp [Expr.same]
  | .string _ _, b => by cases b <;> simp [Expr.same]
  | .bool _ _, b => by cases b <;> simp [Expr.same]
  | .unary _ _ a, b => by cases b <;> simp [Expr.same, a.same_iff, and_assoc]
  | .binary _ _ a a', b => by
    cases b <;> simp [Expr.same, a.same_iff, a'.same_iff, and_assoc]
  | .cond _ a c none, b => by
    cases b with
    | cond _ _ _ d => cases d <;> simp [Expr.same, a.same_iff, c.same_iff, and_assoc]
    | _ => simp [Expr.same]
  | .cond _ a c (some d), b => by
    cases b with
    | cond _ _ _ d' => cases d' <;> simp [Expr.same, a.same_iff, c.same_iff, d.same_iff, and_assoc]
    | _ => simp [Expr.same]
  | .function _ ids c, b => by
    cases b <;> simp [Expr.same, sameIdentifiers_iff, c.same_iff, and_assoc]
  | .call _ a as, b => by
    cases b <;> simp [Expr.same, a.same_iff, sameExprs_iff as, and_assoc]
  | .array _ as, b => by cases b <;> simp [Expr.same, sameExprs_iff as]
  | .index _ a a', b => by
    cases b <;> simp [Expr.same, a.same_iff, a'.same_iff, and_assoc]
  | .hash _ ps, b => by cases b <;> simp [Expr.same, samePairs_iff ps]

theorem sameExprs_iff : ∀ as bs : List Expr,
    sameExprs as bs = true ↔ mapTokensExprs Token.forget as = mapTokensExprs Token.forget bs
  | [], bs => by cases bs <;> simp [sameExprs]
  | a :: as, bs => by cases bs <;> simp [sameExprs, a.same_iff, sameExprs_iff as]

theorem samePairs_iff : ∀ ps qs : List (Expr × Expr),
    samePairs ps qs = true ↔ mapTokensPairs Token.forget ps = mapTokensPairs Token.forget qs
  | [], qs => by cases qs <;> simp [samePairs]
  | (a, b) :: ps, qs => by
    cases qs <;> simp [samePairs, a.same_iff, b.same_iff, samePairs_iff ps]

theorem Stmt.same_iff : ∀ a b : Stmt,
    a.same b = true ↔ a.mapTokens Token.forget = b.mapTokens Token.forget
  | .letStmt _ _ a, b => by
    cases b with
    | returnStmt _ e => cases e <;> simp [Stmt.same]
    | _ => simp [Stmt.same, Identifier.same, a.same_iff, and_assoc]
  | .returnStmt _ none, b => by
    cases b with
    | returnStmt _ e => cases e <;> simp [Stmt.same]
    | _ => simp [Stmt.same]
  | .returnStmt _ (some a), b => by
    cases b with
    | returnStmt _ e => cases e <;> simp [Stmt.same, a.same_iff]
    | _ => simp [Stmt.same]
  | .exprStmt _ a, b => by
    cases b with
    | returnStmt _ e => cases e <;> simp [Stmt.same]
    | _ => simp [Stmt.same, a.same_iff]

theorem sameStmts_iff : ∀ as bs : List Stmt,
    sameStmts as bs = true ↔ mapTokensStmts Token.forget as = mapTokensStmts Token.forget bs
  | [], bs => by cases bs <;> simp [sameStmts]
  | a :: as, bs => by cases bs <;> simp [sameStmts, a.same_iff, sameStmts_iff as]

theorem Block.same_iff : ∀ a b : Block,
    a.same b = true ↔ a.mapTokens Token.forget = b.mapTokens Token.forget
  | ⟨_, as⟩, ⟨_, bs⟩ => by simp [Block.same, sameStmts_iff as]

end

/-- Programs are the same up to places when they are equal without the places. -/
theorem Program.same_iff (p q : Program) :
    p.same q = true ↔ p.mapTokens Token.forget = q.mapTokens Token.forget := by
  rw [same, mapTokens, mapTokens, Program.mk.injEq]
  exact sameStmts_iff p.statements q.statements

end MonkeyLang
