import MonkeyLang.Parse.Precedence
import MonkeyLang.Proofs.Parse.Grammar

/-!
# Tiers and precedences

The grammar has tiers and the readers have precedences.  This file relates the two, and proves what
both sides of the comparison need to know about the grammar alone: a phrase of a tight tier is one
of every looser tier, and how phrases and statements start and end.

The two are nearly the same chain, and where they differ is what makes climbing work.  A level is a
bound that is not included: what is read at the level `sum` are the products and whatever is
tighter.  And a level is a property of the token that stands behind an expression, while a tier is
one of the expression.  `Tier.above` takes a level to the tier that is read there.  It sends the
three tightest levels to the tier of signs, since an operand may start with a sign wherever it
stands, as in `a * -b`.

Both are compared by their rank, a number.  The lemmas about ranks are decided case by case, and
everything that is proved about the order of tiers afterwards is arithmetic.

What is said about the start and the end of phrases looks at their first or last token only.  It is
used at the seams: whether the loop over operators goes on is decided by the token behind a phrase,
and this may be the first one of the next statement.
-/

set_option autoImplicit false

namespace MonkeyLang
namespace Grammar

/-! ## Ranks

A level and a tier of operators with the same name have the same rank. -/

/-- The tiers in order.  The tiers of operators have the ranks of their precedences.  Numbers are
only used here and in the proofs about readers.  In the grammar a tier is known by what is in it.
-/
def Tier.rank : Tier → Nat
  | equality => 1
  | comparison => 2
  | sum => 3
  | product => 4
  | unary => 5
  | application => 6
  | atom => 7

/-- The tier that is read at a level: the expressions all of whose operators bind tighter.  A sign
never stops anything, so the last tier to be read at a level of its own is that of the signs. -/
def Tier.above : Precedence → Tier
  | .lowest => equality
  | .equality => comparison
  | .comparison => sum
  | .sum => product
  | .product | .unary | .application => unary

/-- The next tier is one step tighter, except at the top. -/
theorem Tier.rank_next {tier : Tier} (h : tier ≠ .atom) : tier.next.rank = tier.rank + 1 := by
  cases tier <;> first | rfl | exact absurd rfl h

theorem Tier.one_le_rank (tier : Tier) : 1 ≤ tier.rank := by
  cases tier <;> decide

theorem Tier.rank_injective : Function.Injective Tier.rank := by
  intro a b h
  cases a <;> cases b <;> first | rfl | exact absurd h (by decide)

/-- Whatever binds tighter than a level belongs to the tier above it. -/
theorem Tier.rank_above_le {level : Precedence} {n : Nat} (h : level.rank < n) :
    (Tier.above level).rank ≤ n := by
  cases level <;> simp only [Tier.above, Tier.rank, Precedence.rank] at h ⊢ <;> omega

/-- Above the looser tiers, those of operators, levels and tiers alternate. -/
theorem Tier.rank_lt_of_above_le {level : Precedence} {tier : Tier}
    (h : (Tier.above level).rank ≤ tier.rank) (hfour : tier.rank ≤ 4) : level.rank < tier.rank := by
  revert h hfour
  cases level <;> cases tier <;> decide

/-- A phrase of a tight tier is a phrase of every looser one.  By going down one tier after the
other, each of which holds all phrases of the next. -/
theorem Phrase.loosen {tier tier' : Tier} {xs : List Token} {e : Expr} (h : Phrase tier' xs e)
    (hle : tier.rank ≤ tier'.rank) : Phrase tier xs e := by
  obtain ⟨n, hn⟩ := Nat.exists_eq_add_of_le hle
  induction n generalizing tier with
  | zero => exact Tier.rank_injective hn ▸ h
  | succ n ih =>
    have hne : tier ≠ .atom := by
      rintro rfl
      cases tier' <;> simp [Tier.rank] at hn <;> omega
    have hnext := Tier.rank_next hne
    exact .tighter (ih (by omega) (by omega))

/-! ## Operators -/

/-- What the readers know of an operator between operands is what the grammar says. -/
theorem operator_of_operation {kind : TokenKind} (h : continuation? kind = some .operation) :
    ∃ tier op, op ∈ Tier.operators tier ∧ kind = .symbol op.symbol ∧
      Operator.ofKind? kind = some op ∧ tier.rank = (Precedence.ofKind kind).rank ∧
        Tier.above (Precedence.ofKind kind) = tier.next := by
  rw [continuation?.eq_def] at h
  split at h
  · exact ⟨.sum, .plus, by decide, rfl, rfl, rfl, rfl⟩
  · exact ⟨.sum, .minus, by decide, rfl, rfl, rfl, rfl⟩
  · exact ⟨.product, .asterisk, by decide, rfl, rfl, rfl, rfl⟩
  · exact ⟨.product, .slash, by decide, rfl, rfl, rfl, rfl⟩
  · exact ⟨.comparison, .less, by decide, rfl, rfl, rfl, rfl⟩
  · exact ⟨.comparison, .greater, by decide, rfl, rfl, rfl, rfl⟩
  · exact ⟨.equality, .equal, by decide, rfl, rfl, rfl, rfl⟩
  · exact ⟨.equality, .notEqual, by decide, rfl, rfl, rfl, rfl⟩
  all_goals exact absurd h (by simp)

/-- The only token that continues an expression as a call. -/
theorem kind_of_call {kind : TokenKind} (h : continuation? kind = some .call) :
    kind = .symbol .leftParen := by
  rw [continuation?.eq_def] at h
  split at h <;> first | rfl | exact absurd h (by simp)

theorem kind_of_index {kind : TokenKind} (h : continuation? kind = some .index) :
    kind = .symbol .leftBracket := by
  rw [continuation?.eq_def] at h
  split at h <;> first | rfl | exact absurd h (by simp)

/-- The converse: an operator of the grammar is known to the readers. -/
theorem operation_of_mem_operators {tier : Tier} {op : Operator} (h : op ∈ tier.operators) :
    continuation? (.symbol op.symbol) = some .operation ∧
      Operator.ofKind? (.symbol op.symbol) = some op ∧
        (Precedence.ofKind (.symbol op.symbol)).rank = tier.rank := by
  cases tier <;> simp only [Tier.operators, List.mem_cons, List.not_mem_nil, or_false] at h <;>
    rcases h with rfl | rfl <;> exact ⟨rfl, rfl, rfl⟩

theorem Tier.rank_of_mem_operators {tier : Tier} {op : Operator} (h : op ∈ tier.operators) :
    tier.next.rank = tier.rank + 1 ∧ tier.rank ≤ 4 := by
  cases tier <;> first | exact ⟨rfl, by decide⟩ | exact absurd h List.not_mem_nil

/-- The tokens that make an expression longer are those that bind at all. -/
theorem continues_iff (kind : TokenKind) :
    Continues kind ↔ Precedence.lowest < Precedence.ofKind kind := by
  constructor
  · rintro (⟨tier, op, hop, rfl⟩ | rfl | rfl)
    · show 0 < (Precedence.ofKind _).rank
      rw [(operation_of_mem_operators hop).2.2]
      cases tier <;> decide
    · decide
    · decide
  · intro h
    rw [Precedence.ofKind.eq_def] at h
    split at h
    · exact .inl ⟨.equality, .equal, by decide, rfl⟩
    · exact .inl ⟨.equality, .notEqual, by decide, rfl⟩
    · exact .inl ⟨.comparison, .less, by decide, rfl⟩
    · exact .inl ⟨.comparison, .greater, by decide, rfl⟩
    · exact .inl ⟨.sum, .plus, by decide, rfl⟩
    · exact .inl ⟨.sum, .minus, by decide, rfl⟩
    · exact .inl ⟨.product, .asterisk, by decide, rfl⟩
    · exact .inl ⟨.product, .slash, by decide, rfl⟩
    · exact .inr (.inl rfl)
    · exact .inr (.inr rfl)
    · exact absurd h (Nat.lt_irrefl 0)

/-- What binds the expression before it has a way to continue it. -/
theorem continuation?_ne_none {level : Precedence} {kind : TokenKind}
    (h : level < Precedence.ofKind kind) : continuation? kind ≠ none := by
  obtain ⟨tier, op, hop, rfl⟩ | rfl | rfl :=
    (continues_iff kind).2 (Nat.lt_of_le_of_lt (Nat.zero_le _) h)
  · rw [(operation_of_mem_operators hop).1]
    exact Option.some_ne_none _
  · exact Option.some_ne_none _
  · exact Option.some_ne_none _

/-! ## How constructs start

A phrase is never empty, and its first token tells that a phrase starts there.  No phrase starts
with a closing bracket, a comma or a semicolon, which is what allows a reader to look at one token
and decide that a list is over. -/

/-- The tokens that an expression can start with.  These are constants and names, two signs, three
opening brackets, and the first words of conditionals and functions. -/
def startsPhrase : TokenKind → Bool
  | .ident _ | .int _ | .string _ => true
  | .keyword .kwTrue | .keyword .kwFalse | .keyword .kwIf | .keyword .kwFunction => true
  | .symbol .bang | .symbol .minus | .symbol .leftParen | .symbol .leftBracket
  | .symbol .leftBrace => true
  | _ => false

/-- The tokens that a statement can start with. -/
def startsSentence (kind : TokenKind) : Bool :=
  startsPhrase kind || kind == .keyword .kwLet || kind == .keyword .kwReturn

/-- The tokens that can stand after a statement: the first one of another, or an end.  A closing
brace is an end too. -/
def followsSentence (kind : TokenKind) : Bool :=
  startsSentence kind || kind == .eof || kind == .symbol .rightBrace

/-- What can stand after a statement is no part of it. -/
theorem ne_of_followsSentence {kind : TokenKind} (h : followsSentence kind = true) :
    kind ≠ .keyword .kwElse ∧ kind ≠ .symbol .semicolon := by
  constructor <;> rintro rfl <;> exact absurd h (by decide)

/-- A phrase has a first token, and it is one that can start a phrase. -/
theorem Phrase.starts : ∀ {tier : Tier} {xs : List Token} {e : Expr}, Phrase tier xs e →
    ∃ t ts, xs = t :: ts ∧ startsPhrase t.kind = true
  | _, _, _, .tighter h => h.starts
  | _, _, _, .operation _ _ left _ => by
    obtain ⟨t, ts, rfl, ht⟩ := left.starts
    exact ⟨t, _, rfl, ht⟩
  | _, _, _, .sign hop ht _ => ⟨_, _, rfl, by rcases hop with rfl | rfl <;> rw [ht] <;> rfl⟩
  | _, _, _, .call callee _ _ _ => by
    obtain ⟨t, ts, rfl, ht⟩ := callee.starts
    exact ⟨t, _, rfl, ht⟩
  | _, _, _, .index collection _ _ _ => by
    obtain ⟨t, ts, rfl, ht⟩ := collection.starts
    exact ⟨t, _, rfl, ht⟩
  | _, _, _, .ident ht | _, _, _, .int ht _ | _, _, _, .string ht | _, _, _, .boolTrue ht
  | _, _, _, .boolFalse ht | _, _, _, .group ht _ _ | _, _, _, .cond ht _ _ _ _
  | _, _, _, .condElse ht _ _ _ _ _ _ | _, _, _, .function ht _ _ _ _ | _, _, _, .array ht _ _
  | _, _, _, .hash ht _ _ => ⟨_, _, rfl, by rw [ht]; rfl⟩

/-- So a list with a first element is told from an empty list by its first token. -/
theorem Items.starts : ∀ {xs : List Token} {es : List Expr}, Items xs es →
    ∃ t ts, xs = t :: ts ∧ startsPhrase t.kind = true
  | _, _, .one h => h.starts
  | _, _, .cons h _ _ => by
    obtain ⟨t, ts, rfl, ht⟩ := h.starts
    exact ⟨t, _, rfl, ht⟩

theorem Sentence.starts {xs : List Token} {next : Token} {s : Stmt} (h : Sentence xs next s) :
    ∃ t ts, xs = t :: ts ∧ startsSentence t.kind = true := by
  cases h with
  | letStmt ht => exact ⟨_, _, rfl, by rw [ht]; rfl⟩
  | returnValue ht => exact ⟨_, _, rfl, by rw [ht]; rfl⟩
  | returnNothing ht => exact ⟨_, _, rfl, by rw [ht]; rfl⟩
  | expression value =>
    obtain ⟨t, ts, rfl, ht⟩ := value.starts
    exact ⟨t, _, rfl, by simp [startsSentence, ht]⟩

/-- After a statement stands the first token of the next one, or the token after them all. -/
theorem Sentences.follows {xs : List Token} {next : Token} {ss : List Stmt}
    (h : Sentences xs next ss) (hend : next.kind = .eof ∨ next.kind = .symbol .rightBrace) :
    followsSentence (following xs next).kind = true := by
  cases h with
  | none => rcases hend with h | h <;> simp [following, followsSentence, h]
  | cons first =>
    obtain ⟨t, ts, rfl, ht⟩ := first.starts
    simp [following, followsSentence, ht]

/-! ## How constructs end -/

/-- The last of the tokens is a semicolon.  Whether a statement brought its own semicolon can be
seen from its last token. -/
def EndsWithSemicolon (xs : List Token) : Prop :=
  ∃ t, xs.getLast? = some t ∧ t.kind = .symbol .semicolon

/-- The last token of a block.  It is a brace, so that a block is not mistaken for a statement with
a semicolon. -/
theorem Enclosed.last {xs : List Token} {b : Block} (h : Enclosed xs b) :
    ∃ t, xs.getLast? = some t ∧ t.kind = .symbol .rightBrace := by
  cases h with
  | mk _ _ hclose => exact ⟨_, by simp [List.getLast?_cons], hclose⟩

/-- A semicolon is part of a statement, but not of the expression in it. -/
theorem Phrase.last : ∀ {tier : Tier} {xs : List Token} {e : Expr}, Phrase tier xs e →
    ∃ t, xs.getLast? = some t ∧ t.kind ≠ .symbol .semicolon
  | _, _, _, .tighter h => h.last
  | _, _, _, .operation _ _ _ right => by
    obtain ⟨t, ht, hne⟩ := right.last
    exact ⟨t, by simp [List.getLast?_cons, ht], hne⟩
  | _, _, _, .sign _ _ operand => by
    obtain ⟨t, ht, hne⟩ := operand.last
    exact ⟨t, by simp [List.getLast?_cons, ht], hne⟩
  | _, _, _, .cond _ _ _ _ block | _, _, _, .condElse _ _ _ _ _ _ block
  | _, _, _, .function _ _ _ _ block => by
    obtain ⟨t, ht, hkind⟩ := block.last
    exact ⟨t, by simp [List.getLast?_cons, ht], by simp [hkind]⟩
  | _, _, _, .call _ _ _ hclose | _, _, _, .index _ _ _ hclose | _, _, _, .group _ _ hclose
  | _, _, _, .array _ _ hclose | _, _, _, .hash _ _ hclose => by
    refine ⟨_, ?_, fun hkind ↦ TokenKind.noConfusion (hclose.symm.trans hkind) (by simp)⟩
    simp [List.getLast?_cons]
  | _, _, _, .ident ht | _, _, _, .int ht _ | _, _, _, .string ht | _, _, _, .boolTrue ht
  | _, _, _, .boolFalse ht => ⟨_, rfl, by simp [ht]⟩

/-- With an expression at its end, a statement does not end with a semicolon. -/
theorem Phrase.not_endsWithSemicolon {tier : Tier} {xs : List Token} {e : Expr}
    (h : Phrase tier xs e) (front : List Token) : ¬ EndsWithSemicolon (front ++ xs) := by
  rintro ⟨t, ht, hkind⟩
  obtain ⟨u, hu, hne⟩ := h.last
  rw [List.getLast?_append, hu, Option.some_or] at ht
  exact hne (Option.some.inj ht ▸ hkind)

/-! ## The end of the input is part of no construct

So the end of the input cannot be read as anything but that, and a construct that was read lies
within the tokens of the text. -/

theorem Names.ne_eof {xs : List Token} {ids : List Identifier} (h : Names xs ids) :
    ∀ x ∈ xs, x.kind ≠ .eof := by
  induction h with
  | one ht => simp [ht]
  | cons ht hcomma _ ih => simpa [ht, hcomma] using ih

theorem Parameters.ne_eof {xs : List Token} {ids : List Identifier} (h : Parameters xs ids) :
    ∀ x ∈ xs, x.kind ≠ .eof := by
  cases h with
  | none => simp
  | some h => exact h.ne_eof

theorem Closing.ne_eof {xs : List Token} {next : Token} (h : Closing xs next) :
    ∀ x ∈ xs, x.kind ≠ .eof := by
  obtain ⟨t, rfl, ht⟩ | ⟨rfl, -⟩ := h
  · simp [ht]
  · simp

mutual

/-- No construct holds an end of the input.  This says that the tokens of a derivation lie before
the first end, one lemma for each construct. -/
theorem Phrase.ne_eof : ∀ {tier : Tier} {xs : List Token} {e : Expr}, Phrase tier xs e →
    ∀ x ∈ xs, x.kind ≠ .eof
  | _, _, _, .tighter h => h.ne_eof
  | _, _, _, .operation _ ht left right => by
    rw [List.forall_mem_append, List.forall_mem_cons]
    exact ⟨left.ne_eof, by simp [ht], right.ne_eof⟩
  | _, _, _, .sign _ ht operand => by
    rw [List.forall_mem_cons]
    exact ⟨by simp [ht], operand.ne_eof⟩
  | _, _, _, .call callee ht list hclose => by
    rw [List.forall_mem_append, List.forall_mem_cons, List.forall_mem_append]
    exact ⟨callee.ne_eof, by simp [ht], list.ne_eof, by simp [hclose]⟩
  | _, _, _, .index collection ht position hclose => by
    rw [List.forall_mem_append, List.forall_mem_cons, List.forall_mem_append]
    exact ⟨collection.ne_eof, by simp [ht], position.ne_eof, by simp [hclose]⟩
  | _, _, _, .ident ht => by simp [ht]
  | _, _, _, .int ht _ => by simp [ht]
  | _, _, _, .string ht => by simp [ht]
  | _, _, _, .boolTrue ht => by simp [ht]
  | _, _, _, .boolFalse ht => by simp [ht]
  | _, _, _, .group ht inner hclose => by
    rw [List.forall_mem_cons, List.forall_mem_append]
    exact ⟨by simp [ht], inner.ne_eof, by simp [hclose]⟩
  | _, _, _, .cond ht hleft condition hright consequence => by
    rw [List.forall_mem_cons, List.forall_mem_cons, List.forall_mem_append, List.forall_mem_cons]
    exact ⟨by simp [ht], by simp [hleft], condition.ne_eof, by simp [hright], consequence.ne_eof⟩
  | _, _, _, .condElse ht hleft condition hright consequence helse alternative => by
    rw [List.forall_mem_cons, List.forall_mem_cons, List.forall_mem_append, List.forall_mem_cons,
      List.forall_mem_append, List.forall_mem_cons]
    exact ⟨by simp [ht], by simp [hleft], condition.ne_eof, by simp [hright], consequence.ne_eof,
      by simp [helse], alternative.ne_eof⟩
  | _, _, _, .function ht hleft parameters hright body => by
    rw [List.forall_mem_cons, List.forall_mem_cons, List.forall_mem_append, List.forall_mem_cons]
    exact ⟨by simp [ht], by simp [hleft], parameters.ne_eof, by simp [hright], body.ne_eof⟩
  | _, _, _, .array ht list hclose => by
    rw [List.forall_mem_cons, List.forall_mem_append]
    exact ⟨by simp [ht], list.ne_eof, by simp [hclose]⟩
  | _, _, _, .hash ht list hclose => by
    rw [List.forall_mem_cons, List.forall_mem_append]
    exact ⟨by simp [ht], list.ne_eof, by simp [hclose]⟩

theorem Items.ne_eof : ∀ {xs : List Token} {es : List Expr}, Items xs es →
    ∀ x ∈ xs, x.kind ≠ .eof
  | _, _, .one h => h.ne_eof
  | _, _, .cons h hcomma rest => by
    rw [List.forall_mem_append, List.forall_mem_cons]
    exact ⟨h.ne_eof, by simp [hcomma], rest.ne_eof⟩

theorem Listed.ne_eof : ∀ {xs : List Token} {es : List Expr}, Listed xs es →
    ∀ x ∈ xs, x.kind ≠ .eof
  | _, _, .none => by simp
  | _, _, .some h => h.ne_eof

theorem Paired.ne_eof : ∀ {xs : List Token} {pairs : List (Expr × Expr)}, Paired xs pairs →
    ∀ x ∈ xs, x.kind ≠ .eof
  | _, _, .none => by simp
  | _, _, .one key hcolon value => by
    rw [List.forall_mem_append, List.forall_mem_cons]
    exact ⟨key.ne_eof, by simp [hcolon], value.ne_eof⟩
  | _, _, .cons key hcolon value hcomma rest => by
    rw [List.forall_mem_append, List.forall_mem_cons, List.forall_mem_append, List.forall_mem_cons]
    exact ⟨key.ne_eof, by simp [hcolon], value.ne_eof, by simp [hcomma], rest.ne_eof⟩

theorem Enclosed.ne_eof : ∀ {xs : List Token} {b : Block}, Enclosed xs b → ∀ x ∈ xs, x.kind ≠ .eof
  | _, _, .mk ht h hclose => by
    rw [List.forall_mem_cons, List.forall_mem_append]
    exact ⟨by simp [ht], h.ne_eof, by simp [hclose]⟩

theorem Sentence.ne_eof : ∀ {xs : List Token} {next : Token} {s : Stmt}, Sentence xs next s →
    ∀ x ∈ xs, x.kind ≠ .eof
  | _, _, _, .letStmt ht hid hassign value hend => by
    rw [List.forall_mem_cons, List.forall_mem_cons, List.forall_mem_cons, List.forall_mem_append]
    exact ⟨by simp [ht], by simp [hid], by simp [hassign], value.ne_eof, hend.ne_eof⟩
  | _, _, _, .returnValue ht value hend => by
    rw [List.forall_mem_cons, List.forall_mem_append]
    exact ⟨by simp [ht], value.ne_eof, hend.ne_eof⟩
  | _, _, _, .returnNothing ht hys _ => by
    rw [List.forall_mem_cons]
    refine ⟨by simp [ht], ?_⟩
    obtain rfl | ⟨semicolon, rfl, hsemicolon⟩ := hys
    · simp
    · simp [hsemicolon]
  | _, _, _, .expression value hend => by
    rw [List.forall_mem_append]
    exact ⟨value.ne_eof, hend.ne_eof⟩

theorem Sentences.ne_eof : ∀ {xs : List Token} {next : Token} {ss : List Stmt},
    Sentences xs next ss → ∀ x ∈ xs, x.kind ≠ .eof
  | _, _, _, .none => by simp
  | _, _, _, .cons first rest => by
    rw [List.forall_mem_append]
    exact ⟨first.ne_eof, rest.ne_eof⟩

end

end Grammar
end MonkeyLang
