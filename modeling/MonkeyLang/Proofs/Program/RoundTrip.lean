import MonkeyLang.Proofs.Parse.Completeness
import MonkeyLang.Proofs.Parse.Kept
import MonkeyLang.Proofs.Program.Written

/-!
# Rendered programs read back

The tokens that a well-formed program is written with are tokens of the grammar, wherever they
stand in the text, and the tree that the grammar gives them is the one they were written for.  The
numerals are the shortest ones, so it is the canonical program that comes back.

The statement about texts is `reparse_render`.

## The way around

There is no direct argument from rendering to reading: neither follows the shape of the other.
What lies between them is a list of kinds of tokens.  A program has its kinds, `Program.kinds`, and
its text is a layout of them.  So the lexer delivers these kinds (`layout_iff`), and it
remains to show that any tokens of these kinds are a sentence of the grammar; the parser accepts
those.  The places of the tokens are whatever they turn out to be in the text, so the tokens are
given by their kinds alone, and the trees are compared without places.

Everything with operators is put in brackets when it is rendered: an operator with its operands, a
prefix operator with its operand, and an index.  Calls, conditionals and function literals have no
brackets of their own and are applications as they are.  So the phrases that come back are all at
the tightest level of the grammar, and it is enough to show each of them to be an application.

Statements need care, since a statement that is an expression has no semicolon of its own.  It gets
one if another statement follows and none otherwise.  The hypothesis of `Stmt.WellFormed.sentence`
covers the two cases.
-/

set_option autoImplicit false

namespace MonkeyLang

open Grammar

/-! ## Tokens that come back -/

/-- A token without its place, and with the shortest numeral if it is a number.  `Token.plain` is
what both sides have in common: for the tokens of the program with canonical numerals, and for the
tokens that were read from the text without their places. -/
def Token.plain (t : Token) : Token := t.canonical.forget

/-- A token that was read for another one is plain when its place is forgotten. -/
theorem Token.forget_eq_plain {x t : Token} (h : x.kind = t.kind.canonical) :
    x.forget = t.plain := by
  rw [plain, forget_eq_forget_iff]
  exact h

/-- For symbols, keywords and names there is nothing to shorten. -/
theorem Token.forget_of_symbol {x t : Token} {c : Symbol} (hx : x.kind = .symbol c)
    (ht : t.kind = .symbol c) : x.forget = t.plain :=
  forget_eq_plain (by rw [hx, ht]; rfl)

theorem Token.forget_of_keyword {x t : Token} {k : Keyword} (hx : x.kind = .keyword k)
    (ht : t.kind = .keyword k) : x.forget = t.plain :=
  forget_eq_plain (by rw [hx, ht]; rfl)

theorem Token.forget_of_ident {x : Token} {id : Identifier} (hx : x.kind = .ident id.name)
    (hid : id.WellFormed) : x.forget = id.token.plain :=
  forget_eq_plain (by rw [hx, hid.1]; rfl)

/-- The names of parameters come back. -/
theorem names_of_kinds {ids : List Identifier} (h : ∀ id ∈ ids, id.WellFormed) (hne : ids ≠ [])
    {xs : List Token} (hxs : xs.map Token.kind = kindsOfNames ids) :
    ∃ ids', Names xs ids' ∧
      ids'.map (Identifier.mapToken Token.forget) = ids.map (Identifier.mapToken Token.plain) := by
  induction ids generalizing xs with
  | nil => exact absurd rfl hne
  | cons id ids ih =>
    obtain ⟨hid, hids⟩ := List.forall_mem_cons.1 h
    cases ids with
    | nil =>
      obtain ⟨x, rfl, hx⟩ := List.map_eq_singleton_iff.1 hxs
      exact ⟨_, .one hx, by simp [Token.forget_of_ident hx hid]⟩
    | cons next ids =>
      obtain ⟨x, xs, rfl, hx, hxs⟩ := List.map_eq_cons_iff.1 hxs
      obtain ⟨comma, xs, rfl, hcomma, hxs⟩ := List.map_eq_cons_iff.1 hxs
      obtain ⟨ids', hnames, heq⟩ := ih hids (by simp) hxs
      refine ⟨_, .cons hx hcomma hnames, ?_⟩
      rw [List.map_cons, heq, Identifier.mapToken, Token.forget_of_ident hx hid]
      rfl

/-- Parameters come back, and so does their absence.  A list of parameters can be empty, and then
it is written with no token. -/
theorem parameters_of_kinds {ids : List Identifier} (h : ∀ id ∈ ids, id.WellFormed)
    {xs : List Token} (hxs : xs.map Token.kind = kindsOfNames ids) :
    ∃ ids', Parameters xs ids' ∧
      ids'.map (Identifier.mapToken Token.forget) = ids.map (Identifier.mapToken Token.plain) := by
  cases ids with
  | nil =>
    obtain rfl : xs = [] := List.map_eq_nil_iff.1 hxs
    exact ⟨[], .none, rfl⟩
  | cons id ids =>
    obtain ⟨ids', hnames, heq⟩ := names_of_kinds h (by simp) hxs
    exact ⟨ids', .some hnames, heq⟩

/-! ## Trees that come back

One case for each kind of node: tokens of the kinds that the node is written with have a tree in
the grammar, and this is the node up to places and superfluous zeros. -/

/-- Reading the shortest numeral of a number gives the number. -/
theorem Decimal.value_ofNat (n : Nat) : Decimal.value (Decimal.ofNat n).toList = n := by
  rw [Decimal.ofNat, String.toList_ofList, Decimal.value_digits]

mutual

/-- **Tokens of the kinds that an expression is written with are a phrase of the grammar.**  The
tier is the tightest one but for atoms, since an operation is written in parentheses and a call is
not.  The tree that the phrase has is the expression again, with plain tokens. -/
theorem Expr.WellFormed.phrase : ∀ {e : Expr}, e.WellFormed → ∀ {xs : List Token},
    xs.map Token.kind = e.kinds → ∃ e', Phrase .application xs e' ∧
      e'.mapTokens Token.forget = e.mapTokens Token.plain
  | .ident id, h, xs, hxs => by
    rw [Expr.kinds] at hxs
    obtain ⟨x, rfl, hx⟩ := List.map_eq_singleton_iff.1 hxs
    exact ⟨_, .tighter (.ident hx), by simp [Token.forget_of_ident hx h]⟩
  | .int t n, ⟨numeral, ht, _, hlimit, hn⟩, xs, hxs => by
    rw [Expr.kinds, hn, Decimal.ofInt_toInt_ofNat hlimit] at hxs
    obtain ⟨x, rfl, hx⟩ := List.map_eq_singleton_iff.1 hxs
    -- the token holds the shortest numeral, which need not be the one that was read
    have hvalue := Decimal.value_ofNat (Decimal.value numeral.toList)
    refine ⟨_, .tighter (.int hx (by rw [hvalue]; exact hlimit)), ?_⟩
    have hforget : x.forget = t.plain := Token.forget_eq_plain (by rw [hx, ht]; rfl)
    rw [hvalue, hn, Expr.mapTokens, Expr.mapTokens, hforget]
  | .string t text, ⟨ht, _⟩, xs, hxs => by
    rw [Expr.kinds] at hxs
    obtain ⟨x, rfl, hx⟩ := List.map_eq_singleton_iff.1 hxs
    have hforget : x.forget = t.plain := Token.forget_eq_plain (by rw [hx, ht]; rfl)
    exact ⟨_, .tighter (.string hx), by simp [hforget]⟩
  | .bool t b, ht, xs, hxs => by
    rw [Expr.kinds] at hxs
    obtain ⟨x, rfl, hx⟩ := List.map_eq_singleton_iff.1 hxs
    have hforget := Token.forget_of_keyword hx ht
    cases b
    · exact ⟨_, .tighter (.boolFalse hx), by simp [hforget]⟩
    · exact ⟨_, .tighter (.boolTrue hx), by simp [hforget]⟩
  | .unary t op a, ⟨ht, hop, ha⟩, xs, hxs => by
    simp only [Expr.kinds, List.map_eq_cons_iff, List.map_eq_append_iff, List.map_eq_nil_iff] at hxs
    obtain ⟨left, _, rfl, hleft, x, _, rfl, hx, xs, _, rfl, hxs, right, _, rfl, hright, rfl⟩ := hxs
    obtain ⟨a', ha', heq⟩ := ha.phrase hxs
    have hinner := Phrase.sign hop hx (ha'.loosen (by decide))
    refine ⟨_, .tighter (.group hleft (hinner.loosen (by decide)) hright), ?_⟩
    simp [heq, Token.forget_of_symbol hx ht]
  | .binary t op a b, ⟨ht, ⟨tier, hop⟩, ha, hb⟩, xs, hxs => by
    simp only [Expr.kinds, List.map_eq_cons_iff, List.map_eq_append_iff, List.map_eq_nil_iff] at hxs
    obtain ⟨left, _, rfl, hleft, xs, _, rfl, hxs, x, _, rfl, hx, ys, _, rfl, hys, right, _, rfl,
      hright, rfl⟩ := hxs
    obtain ⟨a', ha', heqa⟩ := ha.phrase hxs
    obtain ⟨b', hb', heqb⟩ := hb.phrase hys
    obtain ⟨hnext, hfour⟩ := Tier.rank_of_mem_operators hop
    have hsix : Tier.application.rank = 6 := rfl
    have hinner := Phrase.operation hop hx (ha'.loosen (by omega)) (hb'.loosen (by omega))
    have hone : Tier.equality.rank ≤ tier.rank := Tier.one_le_rank tier
    have hgroup := Phrase.group hleft (hinner.loosen hone) hright
    rw [List.append_assoc, List.cons_append] at hgroup
    exact ⟨_, .tighter hgroup, by simp [heqa, heqb, Token.forget_of_symbol hx ht]⟩
  | .cond t c b none, ⟨ht, hc, hb⟩, xs, hxs => by
    simp only [Expr.kinds, List.map_eq_cons_iff, List.map_eq_append_iff] at hxs
    obtain ⟨x, _, rfl, hx, left, _, rfl, hleft, xs, _, rfl, hxs, right, ys, rfl, hright, hys⟩ := hxs
    obtain ⟨c', hc', heqc⟩ := hc.phrase hxs
    obtain ⟨b', hb', heqb⟩ := hb.enclosed hys
    refine ⟨_, .tighter (.cond hx hleft (hc'.loosen (by decide)) hright hb'), ?_⟩
    simp [heqc, heqb, Token.forget_of_keyword hx ht]
  | .cond t c b (some d), ⟨ht, hc, hb, hd⟩, xs, hxs => by
    simp only [Expr.kinds, List.map_eq_cons_iff, List.map_eq_append_iff] at hxs
    obtain ⟨x, _, rfl, hx, left, _, rfl, hleft, xs, _, rfl, hxs, right, _, rfl, hright, ys, _, rfl,
      hys, kwElse, zs, rfl, helse, hzs⟩ := hxs
    obtain ⟨c', hc', heqc⟩ := hc.phrase hxs
    obtain ⟨b', hb', heqb⟩ := hb.enclosed hys
    obtain ⟨d', hd', heqd⟩ := hd.enclosed hzs
    refine ⟨_, .tighter (.condElse hx hleft (hc'.loosen (by decide)) hright hb' helse hd'), ?_⟩
    simp [heqc, heqb, heqd, Token.forget_of_keyword hx ht]
  | .function t ids b, ⟨ht, hids, hb⟩, xs, hxs => by
    simp only [Expr.kinds, List.map_eq_cons_iff, List.map_eq_append_iff] at hxs
    obtain ⟨x, _, rfl, hx, left, _, rfl, hleft, xs, _, rfl, hxs, right, ys, rfl, hright, hys⟩ := hxs
    obtain ⟨ids', hids', heqids⟩ := parameters_of_kinds hids hxs
    obtain ⟨b', hb', heqb⟩ := hb.enclosed hys
    refine ⟨_, .tighter (.function hx hleft hids' hright hb'), ?_⟩
    simp only [Expr.mapTokens, heqids, heqb, Token.forget_of_keyword hx ht]
  | .call t f as, ⟨ht, hf, has⟩, xs, hxs => by
    simp only [Expr.kinds, List.map_eq_cons_iff, List.map_eq_append_iff, List.map_eq_nil_iff] at hxs
    obtain ⟨xs, _, rfl, hxs, x, _, rfl, hx, ys, _, rfl, hys, right, _, rfl, hright, rfl⟩ := hxs
    obtain ⟨f', hf', heqf⟩ := hf.phrase hxs
    obtain ⟨as', has', -, heqas⟩ := has.listed hys
    refine ⟨_, .call hf' hx has' hright, ?_⟩
    simp [heqf, heqas, Token.forget_of_symbol hx ht]
  | .array t as, ⟨ht, has⟩, xs, hxs => by
    simp only [Expr.kinds, List.map_eq_cons_iff, List.map_eq_append_iff, List.map_eq_nil_iff] at hxs
    obtain ⟨x, _, rfl, hx, xs, _, rfl, hxs, right, _, rfl, hright, rfl⟩ := hxs
    obtain ⟨as', has', -, heqas⟩ := has.listed hxs
    refine ⟨_, .tighter (.array hx has' hright), ?_⟩
    simp [heqas, Token.forget_of_symbol hx ht]
  | .index t a i, ⟨ht, ha, hi⟩, xs, hxs => by
    simp only [Expr.kinds, List.map_eq_cons_iff, List.map_eq_append_iff, List.map_eq_nil_iff] at hxs
    obtain ⟨left, _, rfl, hleft, xs, _, rfl, hxs, x, _, rfl, hx, ys, _, rfl, hys, close, _, rfl,
      hclose, right, _, rfl, hright, rfl⟩ := hxs
    obtain ⟨a', ha', heqa⟩ := ha.phrase hxs
    obtain ⟨i', hi', heqi⟩ := hi.phrase hys
    have hinner := Phrase.index ha' hx (hi'.loosen (by decide)) hclose
    have hgroup := Phrase.group hleft (hinner.loosen (by decide)) hright
    simp only [List.append_assoc, List.cons_append, List.nil_append] at hgroup
    exact ⟨_, .tighter hgroup, by simp [heqa, heqi, Token.forget_of_symbol hx ht]⟩
  | .hash t ps, ⟨ht, hps⟩, xs, hxs => by
    simp only [Expr.kinds, List.map_eq_cons_iff, List.map_eq_append_iff, List.map_eq_nil_iff] at hxs
    obtain ⟨x, _, rfl, hx, xs, _, rfl, hxs, right, _, rfl, hright, rfl⟩ := hxs
    obtain ⟨ps', hps', heqps⟩ := hps.paired hxs
    refine ⟨_, .tighter (.hash hx hps' hright), ?_⟩
    simp [heqps, Token.forget_of_symbol hx ht]

/-- Lists that are not empty are treated apart, for the grammar has items with commas between them
in a place where a list may also be empty. -/
theorem WellFormedExprs.listed : ∀ {es : List Expr}, WellFormedExprs es → ∀ {xs : List Token},
    xs.map Token.kind = kindsOfExprs es → ∃ es', Listed xs es' ∧ (es ≠ [] → Items xs es') ∧
      mapTokensExprs Token.forget es' = mapTokensExprs Token.plain es
  | [], _, xs, hxs => by
    obtain rfl : xs = [] := List.map_eq_nil_iff.1 hxs
    exact ⟨[], .none, fun h ↦ absurd rfl h, rfl⟩
  | [e], ⟨he, _⟩, xs, hxs => by
    obtain ⟨e', he', heq⟩ := he.phrase hxs
    have hitems : Items xs [e'] := .one (he'.loosen (by decide))
    exact ⟨[e'], .some hitems, fun _ ↦ hitems, by simp [heq]⟩
  | e :: next :: es, ⟨he, hes⟩, xs, hxs => by
    simp only [kindsOfExprs, List.map_eq_cons_iff, List.map_eq_append_iff] at hxs
    obtain ⟨xs, _, rfl, hxs, comma, ys, rfl, hcomma, hys⟩ := hxs
    obtain ⟨e', he', heq⟩ := he.phrase hxs
    obtain ⟨es', -, hitems', heqs⟩ := hes.listed hys
    have hitems := Items.cons (he'.loosen (by decide)) hcomma (hitems' (by simp))
    refine ⟨e' :: es', .some hitems, fun _ ↦ hitems, ?_⟩
    simp [heq, heqs]

theorem WellFormedPairs.paired : ∀ {ps : List (Expr × Expr)}, WellFormedPairs ps →
    ∀ {xs : List Token}, xs.map Token.kind = kindsOfPairs ps → ∃ ps', Paired xs ps' ∧
      mapTokensPairs Token.forget ps' = mapTokensPairs Token.plain ps
  | [], _, xs, hxs => by
    obtain rfl : xs = [] := List.map_eq_nil_iff.1 hxs
    exact ⟨[], .none, rfl⟩
  | [(k, v)], ⟨hk, hv, _⟩, xs, hxs => by
    simp only [kindsOfPairs, List.map_eq_cons_iff, List.map_eq_append_iff] at hxs
    obtain ⟨xs, _, rfl, hxs, colon, ys, rfl, hcolon, hys⟩ := hxs
    obtain ⟨k', hk', heqk⟩ := hk.phrase hxs
    obtain ⟨v', hv', heqv⟩ := hv.phrase hys
    refine ⟨_, .one (hk'.loosen (by decide)) hcolon (hv'.loosen (by decide)), ?_⟩
    simp [heqk, heqv]
  | (k, v) :: next :: ps, ⟨hk, hv, hps⟩, xs, hxs => by
    simp only [kindsOfPairs, List.map_eq_cons_iff, List.map_eq_append_iff] at hxs
    obtain ⟨xs, _, rfl, hxs, colon, _, rfl, hcolon, ys, _, rfl, hys, comma, zs, rfl, hcomma, hzs⟩ :=
      hxs
    obtain ⟨k', hk', heqk⟩ := hk.phrase hxs
    obtain ⟨v', hv', heqv⟩ := hv.phrase hys
    obtain ⟨ps', hps', heqps⟩ := hps.paired hzs
    refine ⟨_, .cons (hk'.loosen (by decide)) hcolon (hv'.loosen (by decide)) hcomma hps', ?_⟩
    simp [heqk, heqv, heqps]

/-- Behind an expression, the tokens `ys` close the statement; a statement of another kind brings
its own semicolon. -/
theorem Stmt.WellFormed.sentence : ∀ {s : Stmt}, s.WellFormed → ∀ {xs ys : List Token}
    {next : Token}, xs.map Token.kind = s.kinds →
      (if s.isExpr then Closing ys next else ys = []) → ∃ s', Sentence (xs ++ ys) next s' ∧
        s'.mapTokens Token.forget = s.mapTokens Token.plain
  | .letStmt t id e, ⟨ht, hid, he⟩, xs, ys, next, hxs, hys => by
    obtain rfl : ys = [] := hys
    simp only [Stmt.kinds, List.map_eq_cons_iff, List.map_eq_append_iff, List.map_eq_nil_iff] at hxs
    obtain ⟨x, _, rfl, hx, y, _, rfl, hy, assign, _, rfl, hassign, xs, _, rfl, hxs, semicolon, _,
      rfl, hsemicolon, rfl⟩ := hxs
    obtain ⟨e', he', heq⟩ := he.phrase hxs
    rw [List.append_nil]
    refine ⟨_, .letStmt hx hy hassign (he'.loosen (by decide)) (.inl ⟨_, rfl, hsemicolon⟩), ?_⟩
    simp [heq, Token.forget_of_keyword hx ht, Token.forget_of_ident hy hid]
  | .returnStmt t none, ht, xs, ys, next, hxs, hys => by
    obtain rfl : ys = [] := hys
    simp only [Stmt.kinds, List.map_eq_cons_iff, List.map_eq_nil_iff] at hxs
    obtain ⟨x, _, rfl, hx, semicolon, _, rfl, hsemicolon, rfl⟩ := hxs
    refine ⟨_, .returnNothing hx (.inr ⟨semicolon, rfl, hsemicolon⟩) (.inl hsemicolon), ?_⟩
    simp [Token.forget_of_keyword hx ht]
  | .returnStmt t (some e), ⟨ht, he⟩, xs, ys, next, hxs, hys => by
    obtain rfl : ys = [] := hys
    simp only [Stmt.kinds, List.map_eq_cons_iff, List.map_eq_append_iff, List.map_eq_nil_iff] at hxs
    obtain ⟨x, _, rfl, hx, xs, _, rfl, hxs, semicolon, _, rfl, hsemicolon, rfl⟩ := hxs
    obtain ⟨e', he', heq⟩ := he.phrase hxs
    rw [List.append_nil]
    refine ⟨_, .returnValue hx (he'.loosen (by decide)) (.inl ⟨_, rfl, hsemicolon⟩), ?_⟩
    simp [heq, Token.forget_of_keyword hx ht]
  | .exprStmt t e, ⟨ht, he⟩, xs, ys, next, hxs, hys => by
    obtain ⟨e', he', heq⟩ := he.phrase hxs
    refine ⟨_, .expression (he'.loosen (by decide)) hys, ?_⟩
    have htoken : e'.token.forget = e.token.plain := by
      have h := congrArg Expr.token heq
      rwa [Expr.token_mapTokens, Expr.token_mapTokens] at h
    simp [heq, ht, htoken]

/-- At the end no semicolon is written behind an expression, and none is needed if nothing can
continue it. -/
theorem WellFormedStmts.sentences : ∀ {ss : List Stmt}, WellFormedStmts ss → ∀ {xs : List Token}
    {next : Token}, xs.map Token.kind = kindsOfStmts ss → ¬ Continues next.kind →
      ∃ ss', Sentences xs next ss' ∧
        mapTokensStmts Token.forget ss' = mapTokensStmts Token.plain ss
  | [], _, xs, next, hxs, _ => by
    obtain rfl : xs = [] := List.map_eq_nil_iff.1 hxs
    exact ⟨[], .none, rfl⟩
  | [s], ⟨hs, _⟩, xs, next, hxs, hnext => by
    have hend : if s.isExpr then Closing [] next else ([] : List Token) = [] := by
      split
      · exact .inr ⟨rfl, hnext⟩
      · rfl
    obtain ⟨s', hs', heq⟩ := hs.sentence hxs hend
    rw [List.append_nil] at hs'
    have hone := Sentences.cons hs' .none
    rw [List.append_nil] at hone
    exact ⟨[s'], hone, by simp [heq]⟩
  | s :: second :: ss, ⟨hs, hss⟩, xs, next, hxs, hnext => by
    simp only [kindsOfStmts, List.map_eq_append_iff] at hxs
    obtain ⟨xs, _, rfl, hxs, ys, zs, rfl, hys, hzs⟩ := hxs
    -- a bare expression is closed by the semicolon after it, the others bring their own
    have hend : if s.isExpr then Closing ys (following zs next) else ys = [] := by
      split at hys
      · rw [if_pos ‹_›]
        exact .inl (List.map_eq_singleton_iff.1 hys)
      · rw [if_neg ‹_›]
        exact List.map_eq_nil_iff.1 hys
    obtain ⟨s', hs', heq⟩ := hs.sentence hxs hend
    obtain ⟨ss', hss', heqs⟩ := hss.sentences hzs hnext
    have hcons := Sentences.cons hs' hss'
    rw [List.append_assoc] at hcons
    exact ⟨s' :: ss', hcons, by simp [heq, heqs]⟩

theorem Block.WellFormed.enclosed : ∀ {b : Block}, b.WellFormed → ∀ {xs : List Token},
    xs.map Token.kind = b.kinds → ∃ b', Enclosed xs b' ∧
      b'.mapTokens Token.forget = b.mapTokens Token.plain
  | ⟨t, ss⟩, ⟨ht, hss⟩, xs, hxs => by
    simp only [Block.kinds, List.map_eq_cons_iff, List.map_eq_append_iff, List.map_eq_nil_iff]
      at hxs
    obtain ⟨x, _, rfl, hx, xs, _, rfl, hxs, close, _, rfl, hclose, rfl⟩ := hxs
    have hend : ¬ Continues close.kind := by
      rw [hclose, continues_iff]
      decide
    obtain ⟨ss', hss', heq⟩ := hss.sentences hxs hend
    refine ⟨_, .mk hx hss' hclose, ?_⟩
    simp [heq, Token.forget_of_symbol hx ht]

end

/-! ## Texts that come back -/

/-- The text of a well-formed program is read without error, and gives the canonical program.  The
tokens are laid out in the text (`Program.WellFormed.layout`), so the lexer finds their kinds, and
these are a sequence of statements of the grammar, which the reader does not miss. -/
theorem Program.WellFormed.parse_render {p : Program} (h : p.WellFormed) :
    (parse p.render).errors = [] ∧ (parse p.render).program.same p.canonical = true := by
  have hkinds := (layout_iff p.kinds p.render).1 h.layout
  have hend : ¬ Continues (Token.eof (Cursor.ofText p.render).stream.finish).kind := by
    show ¬ Continues .eof
    rw [continues_iff]
    decide
  obtain ⟨statements, hsentences, heq⟩ := WellFormedStmts.sentences h hkinds hend
  have hderives : Derives (tokenize p.render) ⟨statements⟩ := ⟨_, _, rfl, rfl, hsentences⟩
  obtain ⟨herrors, hprogram⟩ := parseProgram_eq_ok.1 (parseProgram_of_derives hderives)
  refine ⟨herrors, ?_⟩
  rw [hprogram, Program.same_iff, Program.canonical, Program.mapTokens_mapTokens]
  exact congrArg Program.mk heq

/-- **Rendering and reading give a program back.**  Take the program that is kept of a text,
whatever was wrong with the text.  Its own text is read without error, and gives the program with
the shortest numerals in its tokens.  This is the program itself unless one of its numerals starts
with superfluous zeros.  Rendering once more changes nothing. -/
theorem reparse_render (text : String) :
    let p := (parse text).program
    let again := parse p.render
    again.errors = [] ∧ again.program.same p.canonical = true ∧
      (again.program.same p = true ↔ ∀ t ∈ p.tokens, ¬ t.kind.Padded) ∧
        again.program.render = p.render := by
  intro p again
  have hp : p.WellFormed := wellFormed_parse text
  obtain ⟨herrors, hsame⟩ := hp.parse_render
  have hforget := (Program.same_iff _ _).1 hsame
  refine ⟨herrors, hsame, ?_, ?_⟩
  · rw [← Program.same_canonical_iff hp.tokens, Program.same_iff, Program.same_iff, hforget]
  · calc again.program.render
      _ = (again.program.mapTokens Token.forget).render := (Program.render_mapTokens _ _).symm
      _ = (p.canonical.mapTokens Token.forget).render := by rw [hforget]
      _ = p.canonical.render := Program.render_mapTokens _ _
      _ = p.render := Program.render_mapTokens _ _

end MonkeyLang
