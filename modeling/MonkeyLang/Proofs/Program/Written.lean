import MonkeyLang.Proofs.Program.Canonical
import MonkeyLang.Proofs.Program.WellFormed

/-!
# The tokens of a rendered program

`Program.kinds` lists the kinds of the tokens that a program is written with, brackets and
semicolons included.  For a well-formed program they lie in its text (`Program.WellFormed.layout`):
wherever two tokens are written without a blank between them, the first one does not go on with the
characters of the second.

## Longest tokens

A lexer takes as many characters for a token as it can, so writing one token after another is not
enough for them to be read as they were meant.  Names, keywords and numbers go on with letters or
digits, and `=` and `!` go on with an equals sign.  No other token goes on at all.  `Delimited`
says that a text starts with none of these characters, which is enough for whatever comes before
it.

The induction runs from the end of the text to its start: it is known how the text goes on, and one
more token or one more tree is put in front.  So the theorem about a tree has what follows as a
parameter, with the assumption that it is delimited.  After an operator this is the blank; after an
operand it is a blank or a bracket.

A prefix operator is the one place where no blank is written, as in `(!x)` or `(-1)`.  There the
next character belongs to the operand, and `!` would go on if it were an equals sign.  No
expression starts with one (`Expr.WellFormed.stopsAt_render`).
-/

set_option autoImplicit false

namespace MonkeyLang

/-! ## The kinds of the tokens

These functions have the shape of those that render a program, with tokens in place of characters.
Semicolons and commas stand between the parts and not behind them, except that `let` and `return`
bring their own semicolon. -/

/-- The names of parameters, with commas between them. -/
def kindsOfNames : List Identifier → List TokenKind
  | [] => []
  | [id] => [.ident id.name]
  | id :: next :: rest => .ident id.name :: .symbol .comma :: kindsOfNames (next :: rest)

mutual

/-- The tokens that an expression is written with.  An operation has the parentheses that its text
has, and a number has the shortest numeral, since it is written from its value. -/
def Expr.kinds : Expr → List TokenKind
  | .ident id => [.ident id.name]
  | .int _ n => [.int (Decimal.ofInt n.toInt)]
  | .string _ text => [.string text]
  | .bool _ b => [.keyword (if b then .kwTrue else .kwFalse)]
  | .unary _ op operand =>
    .symbol .leftParen :: .symbol op.symbol :: (operand.kinds ++ [.symbol .rightParen])
  | .binary _ op left right =>
    .symbol .leftParen ::
      (left.kinds ++ .symbol op.symbol :: (right.kinds ++ [.symbol .rightParen]))
  | .cond _ condition consequence none =>
    .keyword .kwIf :: .symbol .leftParen ::
      (condition.kinds ++ .symbol .rightParen :: consequence.kinds)
  | .cond _ condition consequence (some alternative) =>
    .keyword .kwIf :: .symbol .leftParen ::
      (condition.kinds ++ .symbol .rightParen ::
        (consequence.kinds ++ .keyword .kwElse :: alternative.kinds))
  | .function _ parameters body =>
    .keyword .kwFunction :: .symbol .leftParen ::
      (kindsOfNames parameters ++ .symbol .rightParen :: body.kinds)
  | .call _ callee arguments =>
    callee.kinds ++ .symbol .leftParen :: (kindsOfExprs arguments ++ [.symbol .rightParen])
  | .array _ elements =>
    .symbol .leftBracket :: (kindsOfExprs elements ++ [.symbol .rightBracket])
  | .index _ collection position =>
    .symbol .leftParen :: (collection.kinds ++ .symbol .leftBracket ::
      (position.kinds ++ [.symbol .rightBracket, .symbol .rightParen]))
  | .hash _ pairs => .symbol .leftBrace :: (kindsOfPairs pairs ++ [.symbol .rightBrace])

def kindsOfExprs : List Expr → List TokenKind
  | [] => []
  | [e] => e.kinds
  | e :: next :: rest => e.kinds ++ .symbol .comma :: kindsOfExprs (next :: rest)

def kindsOfPairs : List (Expr × Expr) → List TokenKind
  | [] => []
  | [(key, value)] => key.kinds ++ .symbol .colon :: value.kinds
  | (key, value) :: next :: rest =>
    key.kinds ++ .symbol .colon :: (value.kinds ++ .symbol .comma :: kindsOfPairs (next :: rest))

/-- The tokens that a statement is written with.  A statement that is an expression has no
semicolon of its own.  Between two statements it gets one. -/
def Stmt.kinds : Stmt → List TokenKind
  | .letStmt _ id value =>
    .keyword .kwLet :: .ident id.name :: .symbol .assign :: (value.kinds ++ [.symbol .semicolon])
  | .returnStmt _ none => [.keyword .kwReturn, .symbol .semicolon]
  | .returnStmt _ (some value) => .keyword .kwReturn :: (value.kinds ++ [.symbol .semicolon])
  | .exprStmt _ expression => expression.kinds

def kindsOfStmts : List Stmt → List TokenKind
  | [] => []
  | [s] => s.kinds
  | s :: next :: rest =>
    s.kinds ++ ((if s.isExpr then [.symbol .semicolon] else []) ++ kindsOfStmts (next :: rest))

/-- The tokens that a block is written with. -/
def Block.kinds : Block → List TokenKind
  | ⟨_, statements⟩ => .symbol .leftBrace :: (kindsOfStmts statements ++ [.symbol .rightBrace])

end

/-- The tokens that a program is written with. -/
def Program.kinds (p : Program) : List TokenKind := kindsOfStmts p.statements

/-! ## Laying out one more token -/

/-- The characters that make the token before them longer, for some token.  A letter, a digit or an
underscore makes a name or a number longer, and an equals sign can make a symbol longer. -/
def goesOn (c : Char) : Bool := isLetter c || c.isDigit || c == '='

/-- The text goes on with a character that belongs to no token before it.  This is asked of what
comes behind an expression, which can end with any kind of token. -/
def Delimited (rest : List Char) : Prop := StopsAt goesOn rest

theorem delimited_nil : Delimited [] := stopsAt_nil _

theorem delimited_cons {c : Char} (h : goesOn c = false) (cs : List Char) : Delimited (c :: cs) :=
  stopsAt_cons.2 h

namespace Layout

variable {kinds : List TokenKind} {rest : List Char}

/-- A blank in front belongs to no token. -/
theorem blank (h : Layout kinds rest) : Layout kinds (' ' :: rest) := by
  cases h with
  | finish hblanks => exact .finish (List.forall_mem_cons.2 ⟨by decide, hblanks⟩)
  | token hblanks hkind hend later =>
    exact .token (List.forall_mem_cons.2 ⟨by decide, hblanks⟩) hkind hend later

/-- One more token in front, without blanks.  What is behind the token must not belong to it, which
depends on the kind of the token.  Four lemmas below are the cases of this one. -/
theorem next {kind : TokenKind} (hkind : kind.WellFormed) (hend : kind.EndsBefore rest)
    (h : Layout kinds rest) : Layout (kind :: kinds) (kind.spelling ++ rest) :=
  .token (fun _ hc ↦ absurd hc List.not_mem_nil) hkind hend h

/-- A name in front of something that does not go on with it. -/
theorem ident {name : String} (hname : (TokenKind.ident name).WellFormed) (hrest : Delimited rest)
    (h : Layout kinds rest) : Layout (.ident name :: kinds) (name.toList ++ rest) := by
  refine next hname (fun c hc ↦ ?_) h
  have hgoes := hrest c hc
  simp only [goesOn, Bool.or_eq_false_iff] at hgoes
  exact hgoes.1.1

/-- A number in front of something that has no digit at its start. -/
theorem int {numeral : String} (hnumeral : (TokenKind.int numeral).WellFormed)
    (hrest : Delimited rest) (h : Layout kinds rest) :
    Layout (.int numeral :: kinds) (numeral.toList ++ rest) := by
  refine next hnumeral (fun c hc ↦ ?_) h
  have hgoes := hrest c hc
  simp only [goesOn, Bool.or_eq_false_iff] at hgoes
  exact hgoes.1.2

theorem keyword (k : Keyword) (hrest : Delimited rest) (h : Layout kinds rest) :
    Layout (.keyword k :: kinds) (k.spelling.toList ++ rest) := by
  refine next trivial (fun c hc ↦ ?_) h
  have hgoes := hrest c hc
  simp only [goesOn, Bool.or_eq_false_iff] at hgoes
  exact hgoes.1.1

/-- After a symbol only an equals sign could matter. -/
theorem symbol (s : Symbol) (hrest : StopsAt (· == '=') rest) (h : Layout kinds rest) :
    Layout (.symbol s :: kinds) (s.spelling.toList ++ rest) := by
  refine next trivial ?_ h
  cases s <;> first | exact hrest | trivial

end Layout

/-! ## Laying out a tree

One case for each kind of node.  What the node is written with is put in front token by token, from
the last one to the first. -/

/-- A number that was read is written with the shortest numeral of its value. -/
theorem Decimal.ofInt_toInt_ofNat {n : Nat} (h : n < Nat.pow 2 63) :
    Decimal.ofInt (Int64.ofNat n).toInt = Decimal.ofNat n := by
  have htoInt : (Int64.ofNat n).toInt = n := Int64.toInt_ofNat_of_lt h
  rw [htoInt, Decimal.ofInt, if_neg (by omega), Int.natAbs_natCast]

/-- No expression is written with an equals sign at its start.  This is what is needed behind a `!`
that is an operator, for `!=` is a symbol of its own. -/
theorem Expr.WellFormed.stopsAt_render : ∀ {e : Expr}, e.WellFormed → ∀ rest : List Char,
    StopsAt (· == '=') (e.render.toList ++ rest)
  | .ident id, ⟨hkind, hname⟩, rest => by
    rw [hkind] at hname
    obtain ⟨c, cs, hcs⟩ := List.exists_cons_of_ne_nil hname.1
    have hc : isLetter c = true := hname.2.1 c (by rw [hcs]; exact List.mem_cons_self)
    rw [Expr.render, hcs]
    refine stopsAt_cons.2 (beq_eq_false_iff_ne.2 ?_)
    rintro rfl
    exact absurd hc (by decide)
  | .int _ n, ⟨numeral, hkind, _, hlimit, hn⟩, rest => by
    rw [Expr.render, hn, Decimal.ofInt_toInt_ofNat hlimit]
    obtain ⟨hne, hdigits⟩ := Decimal.wellFormed_ofNat (Decimal.value numeral.toList)
    obtain ⟨c, cs, hcs⟩ := List.exists_cons_of_ne_nil hne
    have hc : c.isDigit = true := hdigits c (by rw [hcs]; exact List.mem_cons_self)
    rw [hcs]
    refine stopsAt_cons.2 (beq_eq_false_iff_ne.2 ?_)
    rintro rfl
    exact absurd hc (by decide)
  | .call _ f _, ⟨_, hf, _⟩, rest => by
    simp only [Expr.render, String.toList_append, List.append_assoc]
    exact hf.stopsAt_render _
  | .bool _ b, _, _ => by
    rw [Expr.render]
    cases b <;> exact stopsAt_cons.2 (by decide)
  | .string _ _, _, _ | .unary _ _ _, _, _ | .binary _ _ _ _, _, _ | .cond _ _ _ none, _, _
  | .cond _ _ _ (some _), _, _ | .function _ _ _, _, _ | .array _ _, _, _ | .index _ _ _, _, _
  | .hash _ _, _, _ => by
    simp only [Expr.render, String.toList_append, List.append_assoc]
    exact stopsAt_cons.2 (by decide)

/-- The names of parameters and the commas between them. -/
theorem layout_names {ids : List Identifier} (h : ∀ id ∈ ids, id.WellFormed)
    {kinds : List TokenKind} {rest : List Char} (hrest : Delimited rest)
    (hlater : Layout kinds rest) :
    Layout (kindsOfNames ids ++ kinds)
      ((separated ", " (ids.map Identifier.name)).toList ++ rest) := by
  induction ids with
  | nil => exact hlater
  | cons id ids ih =>
    obtain ⟨⟨hkind, hid⟩, hids⟩ := List.forall_mem_cons.1 h
    rw [hkind] at hid
    cases ids with
    | nil => exact .ident hid hrest hlater
    | cons next ids =>
      simp only [List.map_cons, separated_cons_cons, kindsOfNames, String.toList_append,
        List.append_assoc, List.cons_append] at ih ⊢
      refine .ident hid (delimited_cons (by decide) _) ?_
      exact .next trivial trivial (.blank (ih hids))

mutual

/-- **The tokens of an expression lie in its text, in front of whatever else is laid out.**  The
text behind is part of the induction, because the last token of the expression ends there. -/
theorem Expr.WellFormed.layout : ∀ {e : Expr}, e.WellFormed → ∀ {kinds : List TokenKind}
    {rest : List Char}, Delimited rest → Layout kinds rest →
      Layout (e.kinds ++ kinds) (e.render.toList ++ rest)
  | .ident id, ⟨hkind, hname⟩, kinds, rest, hrest, hlater => by
    rw [hkind] at hname
    exact .ident hname hrest hlater
  | .int _ n, ⟨numeral, _, _, hlimit, hn⟩, kinds, rest, hrest, hlater => by
    rw [Expr.kinds, Expr.render, hn, Decimal.ofInt_toInt_ofNat hlimit]
    exact .int (Decimal.wellFormed_ofNat _) hrest hlater
  | .string _ text, ⟨hkind, htext⟩, kinds, rest, _, hlater => by
    rw [hkind] at htext
    have h : Layout (.string text :: kinds) (('"' :: (text.toList ++ ['"'])) ++ rest) :=
      .next htext trivial hlater
    rw [List.cons_append, List.append_assoc] at h
    simp only [Expr.kinds, Expr.render, String.toList_append, List.append_assoc]
    exact h
  | .bool _ b, _, kinds, rest, hrest, hlater => by
    cases b
    · exact .keyword .kwFalse hrest hlater
    · exact .keyword .kwTrue hrest hlater
  | .unary _ op a, ⟨_, _, ha⟩, kinds, rest, _, hlater => by
    simp only [Expr.kinds, Expr.render, String.toList_append, List.append_assoc, List.cons_append,
      List.nil_append]
    -- a `!` must not meet an equals sign, and no operand is written with one in front
    refine .next trivial trivial (.symbol op.symbol (ha.stopsAt_render _) (ha.layout ?_ ?_))
    · exact delimited_cons (by decide) _
    · exact .next trivial trivial hlater
  | .binary _ op a b, ⟨_, _, ha, hb⟩, kinds, rest, _, hlater => by
    simp only [Expr.kinds, Expr.render, String.toList_append, List.append_assoc, List.cons_append,
      List.nil_append]
    refine .next trivial trivial (ha.layout (delimited_cons (by decide) _) (.blank ?_))
    refine .symbol op.symbol (stopsAt_cons.2 (by decide)) (.blank ?_)
    exact hb.layout (delimited_cons (by decide) _) (.next trivial trivial hlater)
  | .cond _ c b none, ⟨_, hc, hb⟩, kinds, rest, _, hlater => by
    simp only [Expr.kinds, Expr.render, String.toList_append, List.append_assoc, List.cons_append]
    refine .keyword .kwIf (delimited_cons (by decide) _) (.blank (.next trivial trivial ?_))
    refine hc.layout (delimited_cons (by decide) _) ?_
    exact .next trivial trivial (.blank (hb.layout hlater))
  | .cond _ c b (some d), ⟨_, hc, hb, hd⟩, kinds, rest, _, hlater => by
    simp only [Expr.kinds, Expr.render, String.toList_append, List.append_assoc, List.cons_append]
    refine .keyword .kwIf (delimited_cons (by decide) _) (.blank (.next trivial trivial ?_))
    refine hc.layout (delimited_cons (by decide) _) ?_
    refine .next trivial trivial (.blank (hb.layout (.blank ?_)))
    exact .keyword .kwElse (delimited_cons (by decide) _) (.blank (hd.layout hlater))
  | .function _ ids b, ⟨_, hids, hb⟩, kinds, rest, _, hlater => by
    simp only [Expr.kinds, Expr.render, parameterText, String.toList_append, List.append_assoc,
      List.cons_append]
    refine .keyword .kwFunction (delimited_cons (by decide) _) (.next trivial trivial ?_)
    refine layout_names hids (delimited_cons (by decide) _) ?_
    exact .next trivial trivial (.blank (hb.layout hlater))
  | .call _ f as, ⟨_, hf, has⟩, kinds, rest, _, hlater => by
    simp only [Expr.kinds, Expr.render, String.toList_append, List.append_assoc, List.cons_append,
      List.nil_append]
    refine hf.layout (delimited_cons (by decide) _) (.next trivial trivial ?_)
    exact has.layout (delimited_cons (by decide) _) (.next trivial trivial hlater)
  | .array _ as, ⟨_, has⟩, kinds, rest, _, hlater => by
    simp only [Expr.kinds, Expr.render, String.toList_append, List.append_assoc, List.cons_append,
      List.nil_append]
    refine .next trivial trivial (has.layout (delimited_cons (by decide) _) ?_)
    exact .next trivial trivial hlater
  | .index _ a i, ⟨_, ha, hi⟩, kinds, rest, _, hlater => by
    simp only [Expr.kinds, Expr.render, String.toList_append, List.append_assoc, List.cons_append,
      List.nil_append]
    refine .next trivial trivial (ha.layout (delimited_cons (by decide) _) ?_)
    refine .next trivial trivial (hi.layout (delimited_cons (by decide) _) ?_)
    exact .next trivial trivial (.next trivial trivial hlater)
  | .hash _ ps, ⟨_, hps⟩, kinds, rest, _, hlater => by
    simp only [Expr.kinds, Expr.render, String.toList_append, List.append_assoc, List.cons_append,
      List.nil_append]
    refine .next trivial trivial (hps.layout (delimited_cons (by decide) _) ?_)
    exact .next trivial trivial hlater

theorem WellFormedExprs.layout : ∀ {es : List Expr}, WellFormedExprs es →
    ∀ {kinds : List TokenKind} {rest : List Char}, Delimited rest → Layout kinds rest →
      Layout (kindsOfExprs es ++ kinds) ((separated ", " (renderExprs es)).toList ++ rest)
  | [], _, kinds, rest, _, hlater => hlater
  | [e], ⟨he, _⟩, kinds, rest, hrest, hlater => he.layout hrest hlater
  | e :: next :: es, ⟨he, hes⟩, kinds, rest, hrest, hlater => by
    have ih := hes.layout hrest hlater
    simp only [renderExprs, separated_cons_cons, kindsOfExprs, String.toList_append,
      List.append_assoc, List.cons_append] at ih ⊢
    exact he.layout (delimited_cons (by decide) _) (.next trivial trivial (.blank ih))

theorem WellFormedPairs.layout : ∀ {ps : List (Expr × Expr)}, WellFormedPairs ps →
    ∀ {kinds : List TokenKind} {rest : List Char}, Delimited rest → Layout kinds rest →
      Layout (kindsOfPairs ps ++ kinds) ((separated ", " (renderPairs ps)).toList ++ rest)
  | [], _, kinds, rest, _, hlater => hlater
  | [(k, v)], ⟨hk, hv, _⟩, kinds, rest, hrest, hlater => by
    simp only [renderPairs, separated_singleton, kindsOfPairs, String.toList_append,
      List.append_assoc, List.cons_append]
    refine hk.layout (delimited_cons (by decide) _) (.next trivial trivial (.blank ?_))
    exact hv.layout hrest hlater
  | (k, v) :: next :: ps, ⟨hk, hv, hps⟩, kinds, rest, hrest, hlater => by
    have ih := hps.layout hrest hlater
    simp only [renderPairs, separated_cons_cons, kindsOfPairs, String.toList_append,
      List.append_assoc, List.cons_append] at ih ⊢
    refine hk.layout (delimited_cons (by decide) _) (.next trivial trivial (.blank ?_))
    exact hv.layout (delimited_cons (by decide) _) (.next trivial trivial (.blank ih))

theorem Stmt.WellFormed.layout : ∀ {s : Stmt}, s.WellFormed → ∀ {kinds : List TokenKind}
    {rest : List Char}, Delimited rest → Layout kinds rest →
      Layout (s.kinds ++ kinds) (s.render.toList ++ rest)
  | .letStmt _ id e, ⟨_, ⟨hkind, hid⟩, he⟩, kinds, rest, _, hlater => by
    rw [hkind] at hid
    simp only [Stmt.kinds, Stmt.render, String.toList_append, List.append_assoc, List.cons_append,
      List.nil_append]
    refine .keyword .kwLet (delimited_cons (by decide) _) (.blank ?_)
    refine .ident hid (delimited_cons (by decide) _) (.blank ?_)
    refine .symbol .assign (stopsAt_cons.2 (by decide)) (.blank ?_)
    exact he.layout (delimited_cons (by decide) _) (.next trivial trivial hlater)
  | .returnStmt _ none, _, kinds, rest, _, hlater => by
    rw [Stmt.kinds, Stmt.render]
    have h : Layout (.symbol .semicolon :: kinds) (';' :: rest) := .next trivial trivial hlater
    exact .keyword .kwReturn (delimited_cons (by decide) _) h
  | .returnStmt _ (some e), ⟨_, he⟩, kinds, rest, _, hlater => by
    simp only [Stmt.kinds, Stmt.render, String.toList_append, List.append_assoc, List.cons_append,
      List.nil_append]
    refine .keyword .kwReturn (delimited_cons (by decide) _) (.blank ?_)
    exact he.layout (delimited_cons (by decide) _) (.next trivial trivial hlater)
  | .exprStmt _ e, ⟨_, he⟩, kinds, rest, hrest, hlater => he.layout hrest hlater

theorem WellFormedStmts.layout : ∀ {ss : List Stmt}, WellFormedStmts ss →
    ∀ {kinds : List TokenKind} {rest : List Char}, Delimited rest → Layout kinds rest →
      Layout (kindsOfStmts ss ++ kinds) ((renderStmts ss).toList ++ rest)
  | [], _, kinds, rest, _, hlater => hlater
  | [s], ⟨hs, _⟩, kinds, rest, hrest, hlater => hs.layout hrest hlater
  | s :: next :: ss, ⟨hs, hss⟩, kinds, rest, hrest, hlater => by
    have ih := hss.layout hrest hlater
    simp only [renderStmts, kindsOfStmts, String.toList_append, List.append_assoc]
    split
    · exact hs.layout (delimited_cons (by decide) _) (.next trivial trivial (.blank ih))
    · exact hs.layout (delimited_cons (by decide) _) (.blank ih)

/-- A block ends with a brace, so that anything can stand behind it. -/
theorem Block.WellFormed.layout : ∀ {b : Block}, b.WellFormed → ∀ {kinds : List TokenKind}
    {rest : List Char}, Layout kinds rest → Layout (b.kinds ++ kinds) (b.render.toList ++ rest)
  | ⟨_, []⟩, _, kinds, rest, hlater => by
    rw [Block.kinds, Block.render]
    exact .next trivial trivial (.blank (.next trivial trivial hlater))
  | ⟨_, s :: ss⟩, ⟨_, hss⟩, kinds, rest, hlater => by
    simp only [Block.kinds, Block.render, String.toList_append, List.append_assoc,
      List.cons_append, List.nil_append]
    refine .next trivial trivial (.blank (hss.layout (delimited_cons (by decide) _) (.blank ?_)))
    exact .next trivial trivial hlater

end

/-- **The tokens of a well-formed program lie in its text.** -/
theorem Program.WellFormed.layout {p : Program} (h : p.WellFormed) :
    Layout p.kinds p.render.toList := by
  have hlayout := WellFormedStmts.layout h delimited_nil (.finish (by simp))
  rwa [List.append_nil, List.append_nil] at hlayout

end MonkeyLang
