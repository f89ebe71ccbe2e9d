import MonkeyLang.Proofs.Parse.Soundness

/-!
# What is in the grammar is read without error

For every construct of the grammar, its reader settles on the tree of the grammar: with the tokens
of the construct in front of a stream, it takes exactly these tokens, records nothing, and gives
the tree.  What follows must be a token that does not make the construct longer.

For expressions this is the predicate `Completes`.  Reading the tokens of a phrase brings the
reader to its loop, with the whole phrase collected, and so the statement goes on with whatever the
loop settles on.  The main statement is `parseProgram_of_derives`, and `parseProgram_eq_ok_iff`
puts both directions together.

## Phrases and the loop

A phrase with operators of one tier is a chain that grows to the left in the grammar, and the loop
collects it from the left too.  But the phrase `a + b` at the start of `a + b + c` is not read by
one call of a reader: it is what the loop has collected after one round.  So the induction over the
grammar cannot say that a phrase is read and the reader is done.  It says where the reader gets
when the tokens of the phrase are gone, and `Completes.settles` closes the loop at the end, in
front of a token that does not bind tighter than the level.

A phrase of a tier is read at every level below the tier.  The one exception is the level of calls:
a sign is read whatever the level, but an operand at that level would leave calls and indexes
behind it unread.  No reader ever asks for an expression at that level.

## What may follow

A conditional without an `else` must not be followed by one, and a phrase can end with a
conditional.  So the readers of phrases assume that no `else` follows.  In a program this cannot
happen, since nothing starts with that word.

The depth of recursion does not appear.  `Settles` speaks of all sufficiently large depths at once.
-/

set_option autoImplicit false

namespace MonkeyLang

open Grammar

/-! ## Tokens in front of a stream -/

/-- The stream `s` with more tokens in front of it.  It is the other way around from
`Stream.Takes`: here the tokens are given and the stream is made from them. -/
def Stream.prepend (s : Stream) (xs : List Token) : Stream := ⟨xs ++ s.pending, s.finish⟩

namespace Stream

@[simp]
theorem prepend_nil (s : Stream) : s.prepend [] = s := rfl

/-- Tokens are put in front in two steps or in one. -/
theorem prepend_append (s : Stream) (xs ys : List Token) :
    s.prepend (xs ++ ys) = (s.prepend ys).prepend xs := by
  rw [prepend, prepend, prepend, List.append_assoc]

@[simp]
theorem head_prepend_cons (s : Stream) (x : Token) (xs : List Token) :
    (s.prepend (x :: xs)).head = x := rfl

@[simp]
theorem tail_prepend_cons (s : Stream) (x : Token) (xs : List Token) :
    (s.prepend (x :: xs)).tail = s.prepend xs := rfl

/-- What comes first is `following`, the function by which the grammar looks ahead. -/
theorem head_prepend (s : Stream) (xs : List Token) :
    (s.prepend xs).head = following xs s.head := by
  cases xs <;> rfl

/-- What a construct cannot start with does not come first when it does. -/
theorem head_prepend_ne {starts : TokenKind → Bool} {xs : List Token}
    (h : ∃ t ts, xs = t :: ts ∧ starts t.kind = true) {kind : TokenKind}
    (hkind : starts kind = false) (s : Stream) (ys : List Token) :
    (s.prepend (xs ++ ys)).head.kind ≠ kind := by
  obtain ⟨t, ts, rfl, ht⟩ := h
  rintro rfl
  exact absurd (ht.symm.trans hkind) (by decide)

end Stream

namespace Parser

/-! ## Steps that settle

A reader settles on an outcome step by step.  Each of these lemmas takes one step from the front of
a reader and from the front of its tokens. -/

section Steps

variable {α β : Type} {s : Stream} {errs : List ParseError}

theorem settles_pure (v : α) (t : State) :
    Settles (fun _ ↦ (pure v : Parser α)) t (.done v t) :=
  .of_forall fun _ ↦ rfl

/-- Looking ahead changes nothing, so the rest settles from the same state. -/
theorem settles_peek {next : Nat → Token → Parser β} {o : Outcome Unit State β}
    (h : Settles (fun depth ↦ next depth s.head) ⟨s, errs⟩ o) :
    Settles (fun depth ↦ peek >>= next depth) ⟨s, errs⟩ o := h

theorem settles_take {x : Token} {xs : List Token} {next : Nat → Token → Parser β}
    {o : Outcome Unit State β}
    (h : Settles (fun depth ↦ next depth x) ⟨s.prepend xs, errs⟩ o) :
    Settles (fun depth ↦ take >>= next depth) ⟨s.prepend (x :: xs), errs⟩ o := h

/-- An expected token that is there is taken, and no error is recorded. -/
theorem settles_expect {x : Token} {xs : List Token} {expected : TokenType}
    {next : Nat → Token → Parser β} {o : Outcome Unit State β} (hx : x.type = expected)
    (h : Settles (fun depth ↦ next depth x) ⟨s.prepend xs, errs⟩ o) :
    Settles (fun depth ↦ expect expected >>= next depth) ⟨s.prepend (x :: xs), errs⟩ o := by
  refine .bind (.of_forall fun _ ↦ ?_) h
  exact expect_of_eq hx

/-- A symbol that is expected and there. -/
theorem settles_symbol {x : Token} {xs : List Token} {c : Symbol} {next : Nat → Token → Parser β}
    {o : Outcome Unit State β} (hx : x.kind = .symbol c)
    (h : Settles (fun depth ↦ next depth x) ⟨s.prepend xs, errs⟩ o) :
    Settles (fun depth ↦ expect (.symbol c) >>= next depth) ⟨s.prepend (x :: xs), errs⟩ o :=
  settles_expect (by rw [Token.type, hx]; rfl) h

theorem settles_identifier {x : Token} {xs : List Token} {name : String}
    {next : Nat → Identifier → Parser β} {o : Outcome Unit State β} (hx : x.kind = .ident name)
    (h : Settles (fun depth ↦ next depth ⟨x, name⟩) ⟨s.prepend xs, errs⟩ o) :
    Settles (fun depth ↦ identifier >>= next depth) ⟨s.prepend (x :: xs), errs⟩ o := by
  have hname : x.literal = name := by rw [Token.literal, hx]; rfl
  simp only [identifier, bind_assoc, pure_bind]
  refine settles_expect (by rw [Token.type, hx]; rfl) ?_
  rw [hname]
  exact h

/-- After the expression of a statement its semicolon is taken, if there is one. -/
theorem settles_skipIf {ys : List Token} {next : Nat → Unit → Parser β} {o : Outcome Unit State β}
    (hys : (∃ t, ys = [t] ∧ t.kind = .symbol .semicolon) ∨
      ys = [] ∧ s.head.kind ≠ .symbol .semicolon)
    (h : Settles (fun depth ↦ next depth ()) ⟨s, errs⟩ o) :
    Settles (fun depth ↦ skipIf (.symbol .semicolon) >>= next depth) ⟨s.prepend ys, errs⟩ o := by
  refine .bind (.of_forall fun _ ↦ ?_) h
  obtain ⟨t, rfl, ht⟩ | ⟨rfl, hs⟩ := hys
  · have htype : t.type = .symbol .semicolon := by rw [Token.type, ht]; rfl
    simp only [skipIf, Action.bind_apply, peek, Action.look_apply, Stream.head_prepend_cons,
      if_pos htype]
    rfl
  · have htype : s.head.type ≠ .symbol .semicolon := fun h ↦ hs (Token.kind_of_type_symbol h)
    simp only [skipIf, Action.bind_apply, peek, Action.look_apply, Stream.prepend_nil,
      if_neg htype]
    rfl

/-- What was read is not caught. -/
theorem settles_attempt {read : Nat → Parser α} {t u : State} {v : α}
    (h : Settles read t (.done v u)) :
    Settles (fun depth ↦ attempt (read depth)) t (.done (some v) u) := by
  obtain ⟨least, h⟩ := h
  refine ⟨least, fun depth hle ↦ ?_⟩
  simp only [attempt, h depth hle]

end Steps

/-! ## Parameters -/

theorem settles_names {xs : List Token} {ids : List Identifier} (h : Names xs ids) {close : Token}
    (hclose : close.kind = .symbol .rightParen) (s : Stream) (errs : List ParseError) :
    Settles (fun depth ↦ do
      let id ← identifier
      let rest ← moreParameters depth
      pure (id :: rest)) ⟨s.prepend (xs ++ [close]), errs⟩ (.done ids ⟨s, errs⟩) := by
  induction h with
  | one ht =>
    refine settles_identifier ht (.bind (.succ ?_) (settles_pure _ _))
    simp only [moreParameters]
    refine settles_peek (.ite_neg (by simp [hclose]) ?_)
    exact settles_symbol hclose (settles_pure _ _)
  | cons ht hcomma _ ih =>
    refine settles_identifier ht (.bind (.succ ?_) (settles_pure _ _))
    simp only [moreParameters]
    exact settles_peek (.ite_pos hcomma (settles_take ih))

theorem settles_parameters {xs : List Token} {ids : List Identifier} (h : Parameters xs ids)
    {close : Token} (hclose : close.kind = .symbol .rightParen) (s : Stream)
    (errs : List ParseError) :
    Settles (fun depth ↦ parameters depth) ⟨s.prepend (xs ++ [close]), errs⟩
      (.done ids ⟨s, errs⟩) := by
  simp only [parameters]
  cases h with
  | none => exact settles_peek (.ite_pos hclose (settles_take (settles_pure _ _)))
  | some h =>
    refine settles_peek (.ite_neg ?_ (settles_names h hclose s errs))
    cases h with
    | one ht => simp [ht]
    | cons ht => simp [ht]

/-! ## Expressions -/

/-- Reading the tokens `xs` of a phrase at a level at which it is read brings the reader to its
loop, with `e` collected.  The tokens come before any stream, and the errors recorded before stay.
Bringing a reader to its loop, and not to its end, is what can be said of a phrase without knowing
whether a longer phrase follows. -/
def Completes (tier : Tier) (xs : List Token) (e : Expr) : Prop :=
  ∀ (level : Precedence) (s : Stream) (errs : List ParseError) (o : Outcome Unit State Expr),
    (Tier.above level).rank ≤ tier.rank → level ≠ .application →
    (Precedence.ofKind s.head.kind).rank ≤ tier.rank → s.head.kind ≠ .keyword .kwElse →
    Settles (fun depth ↦ climb depth level e) ⟨s, errs⟩ o →
    Settles (fun depth ↦ expression depth level) ⟨s.prepend xs, errs⟩ o

/-- The loop ends in front of a token that does not bind tighter than its level. -/
theorem settles_climb_done {level : Precedence} {s : Stream} (e : Expr) (errs : List ParseError)
    (h : ¬ level < Precedence.ofKind s.head.kind) :
    Settles (fun depth ↦ climb depth level e) ⟨s, errs⟩ (.done e ⟨s, errs⟩) := by
  refine .succ ?_
  simp only [climb]
  exact settles_peek (.ite_neg h (settles_pure _ _))

/-- The loop goes on with a token that binds tighter than its level. -/
theorem settles_climb_more {level : Precedence} {way : Continuation} {t : Token}
    {left longer : Expr} {xs : List Token} {s : Stream} {errs : List ParseError}
    {o : Outcome Unit State Expr} (hlevel : level < Precedence.ofKind t.kind)
    (hway : continuation? t.kind = some way)
    (hmore : Settles (fun depth ↦ continued depth way t left) ⟨s.prepend xs, errs⟩
      (.done longer ⟨s, errs⟩))
    (h : Settles (fun depth ↦ climb depth level longer) ⟨s, errs⟩ o) :
    Settles (fun depth ↦ climb depth level left) ⟨s.prepend (t :: xs), errs⟩ o := by
  refine .succ ?_
  simp only [climb]
  refine settles_peek (.ite_pos hlevel ?_)
  simp only [Stream.head_prepend_cons, hway]
  exact settles_take (.bind hmore h)

/-- What is read as an operand leads to the loop. -/
theorem completes_of_operand {tier : Tier} {xs : List Token} {e : Expr}
    (h : ∀ s errs, (Precedence.ofKind s.head.kind).rank ≤ tier.rank →
      s.head.kind ≠ .keyword .kwElse →
      Settles operand ⟨Stream.prepend s xs, errs⟩ (.done e ⟨s, errs⟩)) : Completes tier xs e := by
  intro level s errs o _ _ htier helse hclimb
  refine .succ ?_
  simp only [expression]
  exact .bind (h s errs htier helse) hclimb

/-- An expression that is a single token. -/
theorem completes_token {t : Token} {e : Expr}
    (h : ∀ depth s errs, operand (depth + 1) ⟨Stream.prepend s [t], errs⟩ = .done e ⟨s, errs⟩) :
    Completes .atom [t] e :=
  completes_of_operand fun s errs _ _ ↦ .succ (.of_forall fun depth ↦ h depth s errs)

/-- In front of a token that does not bind tighter, the loop is over and the phrase was read. -/
theorem Completes.settles {tier : Tier} {xs : List Token} {e : Expr} (h : Completes tier xs e)
    {level : Precedence} {s : Stream} (errs : List ParseError)
    (habove : (Tier.above level).rank ≤ tier.rank) (happ : level ≠ .application)
    (hnext : ¬ level < Precedence.ofKind s.head.kind)
    (htier : (Precedence.ofKind s.head.kind).rank ≤ tier.rank)
    (helse : s.head.kind ≠ .keyword .kwElse) :
    Settles (fun depth ↦ expression depth level) ⟨s.prepend xs, errs⟩ (.done e ⟨s, errs⟩) :=
  h level s errs _ habove happ htier helse (settles_climb_done e errs hnext)

/-- The whole of an expression that stands in brackets or in a statement. -/
theorem Completes.settles_lowest {xs : List Token} {e : Expr} (h : Completes .equality xs e)
    {s : Stream} (errs : List ParseError) (hnext : ¬ Continues s.head.kind)
    (helse : s.head.kind ≠ .keyword .kwElse) :
    Settles (fun depth ↦ expression depth .lowest) ⟨s.prepend xs, errs⟩ (.done e ⟨s, errs⟩) := by
  have hlowest : ¬ Precedence.lowest < Precedence.ofKind s.head.kind :=
    fun h ↦ hnext ((continues_iff _).2 h)
  exact h.settles errs (by decide) (by decide) hlowest
    (Nat.le_trans (Nat.not_lt.1 hlowest) (by decide)) helse

/-- The same in front of a symbol that is known. -/
theorem Completes.settles_before {xs ys : List Token} {e : Expr} (h : Completes .equality xs e)
    {t : Token} {c : Symbol} (ht : t.kind = .symbol c)
    (hnext : ¬ Precedence.lowest < Precedence.ofKind (.symbol c)) (s : Stream)
    (errs : List ParseError) :
    Settles (fun depth ↦ expression depth .lowest) ⟨s.prepend (xs ++ t :: ys), errs⟩
      (.done e ⟨s.prepend (t :: ys), errs⟩) := by
  rw [Stream.prepend_append]
  refine h.settles_lowest errs ?_ ?_
  · rw [Stream.head_prepend_cons, ht, continues_iff]
    exact hnext
  · rw [Stream.head_prepend_cons, ht]
    exact fun h ↦ TokenKind.noConfusion h

/-- A phrase of the next tier needs nothing more to be one of this tier. -/
theorem Completes.tighter {tier : Tier} {xs : List Token} {e : Expr}
    (h : Completes tier.next xs e) : Completes tier xs e := by
  have hle : tier.rank ≤ tier.next.rank := by cases tier <;> decide
  intro level s errs o habove happ htier helse hclimb
  exact h level s errs o (Nat.le_trans habove hle) happ (Nat.le_trans htier hle) helse hclimb

/-- Left side, operator and right side bring the reader back to its loop. -/
theorem Completes.operation {tier : Tier} {xs ys : List Token} {t : Token} {op : Operator}
    {a b : Expr} (hop : op ∈ tier.operators) (ht : t.kind = .symbol op.symbol)
    (left : Completes tier xs a) (right : Completes tier.next ys b) :
    Completes tier (xs ++ t :: ys) (.binary t op a b) := by
  obtain ⟨hway, hofKind, hrank⟩ := operation_of_mem_operators hop
  rw [← ht] at hway hofKind hrank
  obtain ⟨hnext, hfour⟩ := Tier.rank_of_mem_operators hop
  intro level s errs o habove happ htier helse hclimb
  rw [Stream.prepend_append]
  refine left level _ errs o habove happ (by rw [Stream.head_prepend_cons, hrank])
    (by simp [ht]) ?_
  have hlevel : level.rank < (Precedence.ofKind t.kind).rank := by
    rw [hrank]
    exact Tier.rank_lt_of_above_le habove hfour
  refine settles_climb_more hlevel hway (.succ ?_) hclimb
  simp only [continued, hofKind]
  -- The right side is read at the level of its operator, so it is of the next tier.
  have hright : Settles (fun depth ↦ expression depth (Precedence.ofKind t.kind))
      ⟨s.prepend ys, errs⟩ (.done b ⟨s, errs⟩) := by
    refine right.settles errs ?_ ?_ ?_ (by omega) helse
    · exact Tier.rank_above_le (by omega)
    · intro h
      rw [h] at hrank
      exact absurd (hrank ▸ hfour) (by decide)
    · exact Nat.not_lt.2 (hrank ▸ htier)
  exact .bind hright (settles_pure _ _)

/-- A call or an index continues an expression at every level but its own. -/
theorem Completes.application {way : Continuation} {xs ys : List Token} {t : Token} {a e : Expr}
    (hlevel : Precedence.ofKind t.kind = .application) (hway : continuation? t.kind = some way)
    (left : Completes .application xs a)
    (hmore : ∀ s errs, Settles (fun depth ↦ continued depth way t a) ⟨Stream.prepend s ys, errs⟩
      (.done e ⟨s, errs⟩)) : Completes .application (xs ++ t :: ys) e := by
  intro level s errs o habove happ htier helse hclimb
  rw [Stream.prepend_append]
  have hlt : level < Precedence.ofKind t.kind := by
    rw [hlevel]
    cases level <;> first | decide | exact absurd rfl happ
  refine left level _ errs o habove happ ?_ ?_ (settles_climb_more hlt hway (hmore s errs) hclimb)
  · rw [Stream.head_prepend_cons, hlevel]
    decide
  · intro h
    rw [Stream.head_prepend_cons] at h
    rw [h] at hway
    exact absurd hway (by simp [continuation?])

/-- A numeral below the limit is read. -/
theorem integer?_of_lt {digits : String} (h : Decimal.value digits.toList < Nat.pow 2 63) :
    integer? digits = some (Int64.ofNat (Decimal.value digits.toList)) := by
  simp only [integer?, integerLimit]
  exact if_pos h

/-- An expression at the end of a statement. -/
theorem settles_closed {β : Type} {xs ys : List Token} {e : Expr} (h : Completes .equality xs e)
    {s : Stream} (hend : Closing ys s.head)
    (hfollows : ys = [] → followsSentence s.head.kind = true)
    (errs : List ParseError) {next : Nat → Expr → Parser β} {o : Outcome Unit State β}
    (hnext : Settles (fun depth ↦ next depth e) ⟨s, errs⟩ o) :
    Settles (fun depth ↦ do
      let value ← expression depth .lowest
      skipIf (.symbol .semicolon)
      next depth value) ⟨s.prepend (xs ++ ys), errs⟩ o := by
  obtain ⟨t, rfl, ht⟩ | ⟨rfl, hcont⟩ := hend
  · refine .bind (h.settles_before ht (by decide) s errs) ?_
    exact settles_skipIf (.inl ⟨t, rfl, ht⟩) hnext
  · obtain ⟨helse, hsemicolon⟩ := ne_of_followsSentence (hfollows rfl)
    rw [List.append_nil]
    refine .bind (h.settles_lowest errs hcont helse) ?_
    exact settles_skipIf (.inr ⟨rfl, hsemicolon⟩) hnext

/-! ## Every construct

The induction is on the derivation.  The theorems with closing brackets take them along, as their
readers do. -/

mutual

/-- By induction on the derivation, together with the derivations of everything that a phrase can
contain. -/
theorem completes_phrase : ∀ {tier : Tier} {xs : List Token} {e : Expr}, Phrase tier xs e →
    Completes tier xs e
  | _, _, _, .tighter h => (completes_phrase h).tighter
  | _, _, _, .operation hop ht left right =>
    .operation hop ht (completes_phrase left) (completes_phrase right)
  | _, _, _, .sign hop ht inner => by
    refine completes_of_operand fun s errs htier helse ↦ .succ ?_
    simp only [operand]
    refine settles_take ?_
    -- what a sign applies to is read at the level of signs, below which the next token stays
    have hright : Settles (fun depth ↦ expression depth .unary) _ _ :=
      (completes_phrase inner).settles errs (by decide) (by decide) (Nat.not_lt.2 htier) htier helse
    rcases hop with rfl | rfl
    · simp only [ht, Operator.ofKind?_symbol]
      exact .bind hright (settles_pure _ _)
    · simp only [ht, Operator.ofKind?_symbol]
      exact .bind hright (settles_pure _ _)
  | _, _, _, .call callee ht list hclose => by
    refine .application (by rw [ht]; rfl) (by rw [ht]; rfl) (completes_phrase callee)
      fun s errs ↦ .succ ?_
    simp only [continued]
    exact .bind (settles_listed list hclose (by decide) s errs) (settles_pure _ _)
  | _, _, _, .index collection ht position hclose => by
    refine .application (by rw [ht]; rfl) (by rw [ht]; rfl) (completes_phrase collection)
      fun s errs ↦ .succ ?_
    simp only [continued]
    refine .bind ((completes_phrase position).settles_before hclose (by decide) s errs) ?_
    exact settles_symbol hclose (settles_pure _ _)
  | _, _, _, .ident ht => by
    refine completes_token fun depth s errs ↦ ?_
    simp [operand, take, Action.bind_apply, ht]
  | _, _, _, .int ht hlimit => by
    refine completes_token fun depth s errs ↦ ?_
    simp [operand, take, Action.bind_apply, ht, integer?_of_lt hlimit]
  | _, _, _, .string ht => by
    refine completes_token fun depth s errs ↦ ?_
    simp [operand, take, Action.bind_apply, ht]
  | _, _, _, .boolTrue ht => by
    refine completes_token fun depth s errs ↦ ?_
    simp [operand, take, Action.bind_apply, ht]
  | _, _, _, .boolFalse ht => by
    refine completes_token fun depth s errs ↦ ?_
    simp [operand, take, Action.bind_apply, ht]
  | _, _, _, .group ht inner hclose => by
    refine completes_of_operand fun s errs _ _ ↦ .succ ?_
    simp only [operand]
    refine settles_take ?_
    simp only [ht]
    refine .bind ((completes_phrase inner).settles_before hclose (by decide) s errs) ?_
    exact settles_symbol hclose (settles_pure _ _)
  | _, _, _, .cond ht hleft condition hright consequence => by
    obtain ⟨brace, ys, rfl, hbrace, hblock⟩ := settles_enclosed consequence
    refine completes_of_operand fun s errs _ helse ↦ .succ ?_
    simp only [operand]
    refine settles_take ?_
    simp only [ht]
    refine .succ ?_
    simp only [conditional]
    refine settles_symbol hleft ?_
    refine .bind ((completes_phrase condition).settles_before hright (by decide) s errs) ?_
    refine settles_symbol hright ?_
    refine settles_symbol hbrace ?_
    refine .bind (hblock s errs) ?_
    exact settles_peek (.ite_neg helse (settles_pure _ _))
  | _, _, _, .condElse ht hleft condition hright consequence helse alternative => by
    obtain ⟨brace, ys, rfl, hbrace, hblock⟩ := settles_enclosed consequence
    obtain ⟨brace', zs, rfl, hbrace', hblock'⟩ := settles_enclosed alternative
    refine completes_of_operand fun s errs _ _ ↦ .succ ?_
    simp only [operand]
    refine settles_take ?_
    simp only [ht]
    refine .succ ?_
    simp only [conditional]
    refine settles_symbol hleft ?_
    refine .bind ((completes_phrase condition).settles_before hright (by decide) s errs) ?_
    refine settles_symbol hright ?_
    refine settles_symbol hbrace ?_
    -- the first block ends in front of the `else`
    rw [List.append_eq, Stream.prepend_append]
    refine .bind (hblock _ errs) ?_
    refine settles_peek (.ite_pos helse (settles_take ?_))
    refine settles_symbol hbrace' ?_
    exact .bind (hblock' s errs) (settles_pure _ _)
  | _, _, _, .function ht hleft parameters hright body => by
    obtain ⟨brace, ys, rfl, hbrace, hblock⟩ := settles_enclosed body
    refine completes_of_operand fun s errs _ _ ↦ .succ ?_
    simp only [operand]
    refine settles_take ?_
    simp only [ht]
    refine settles_symbol hleft ?_
    rw [List.append_cons, Stream.prepend_append]
    refine .bind (settles_parameters parameters hright _ errs) ?_
    refine settles_symbol hbrace ?_
    exact .bind (hblock s errs) (settles_pure _ _)
  | _, _, _, .array ht list hclose => by
    refine completes_of_operand fun s errs _ _ ↦ .succ ?_
    simp only [operand]
    refine settles_take ?_
    simp only [ht]
    exact .bind (settles_listed list hclose (by decide) s errs) (settles_pure _ _)
  | _, _, _, .hash ht list hclose => by
    refine completes_of_operand fun s errs _ _ ↦ .succ ?_
    simp only [operand]
    refine settles_take ?_
    simp only [ht]
    exact .bind (settles_paired list hclose s errs) (settles_pure _ _)

/-- Elements with commas between them, and the bracket that ends them.  Arguments end with a
parenthesis and the elements of an array with a bracket, and neither of them can continue an
expression. -/
theorem settles_items : ∀ {xs : List Token} {es : List Expr}, Items xs es → ∀ {close : Token}
    {c : Symbol}, close.kind = .symbol c → c = .rightParen ∨ c = .rightBracket →
    ∀ (s : Stream) (errs : List ParseError),
      Settles (fun depth ↦ do
        let first ← expression depth .lowest
        let rest ← moreExpressions depth (.symbol c)
        pure (first :: rest)) ⟨s.prepend (xs ++ [close]), errs⟩ (.done es ⟨s, errs⟩)
  | _, _, .one h, close, c, hclose, hc, s, errs => by
    have hnext : ¬ Precedence.lowest < Precedence.ofKind (.symbol c) := by
      rcases hc with rfl | rfl <;> decide
    have hcomma : ¬ close.kind = .symbol .comma := by
      rcases hc with rfl | rfl <;> simp [hclose]
    refine .bind ((completes_phrase h).settles_before hclose hnext s errs) ?_
    refine .bind (.succ ?_) (settles_pure _ _)
    simp only [moreExpressions]
    refine settles_peek (.ite_neg hcomma ?_)
    exact settles_symbol hclose (settles_pure _ _)
  | _, _, .cons h hcomma rest, close, c, hclose, hc, s, errs => by
    rw [List.append_assoc, List.cons_append]
    refine .bind ((completes_phrase h).settles_before hcomma (by decide) s errs) ?_
    refine .bind (.succ ?_) (settles_pure _ _)
    simp only [moreExpressions]
    exact settles_peek (.ite_pos hcomma (settles_take (settles_items rest hclose hc s errs)))

/-- A list can also be empty, in which case its bracket is the first thing that is seen. -/
theorem settles_listed : ∀ {xs : List Token} {es : List Expr}, Listed xs es → ∀ {close : Token}
    {c : Symbol}, close.kind = .symbol c → c = .rightParen ∨ c = .rightBracket →
    ∀ (s : Stream) (errs : List ParseError),
      Settles (fun depth ↦ expressions depth (.symbol c)) ⟨s.prepend (xs ++ [close]), errs⟩
        (.done es ⟨s, errs⟩)
  | _, _, .none, close, c, hclose, _, s, errs => by
    refine .succ ?_
    simp only [expressions]
    refine settles_peek (.ite_pos ?_ (settles_take (settles_pure _ _)))
    rw [List.nil_append, Stream.head_prepend_cons, Token.type, hclose]
    rfl
  | _, _, .some h, close, c, hclose, hc, s, errs => by
    refine .succ ?_
    simp only [expressions]
    refine settles_peek (.ite_neg (fun htype ↦ ?_) (settles_items h hclose hc s errs))
    refine s.head_prepend_ne h.starts ?_ [close] (Token.kind_of_type_symbol htype)
    rcases hc with rfl | rfl <;> rfl

/-- After the last pair no comma is taken, and none is needed. -/
theorem settles_paired : ∀ {xs : List Token} {ps : List (Expr × Expr)}, Paired xs ps →
    ∀ {close : Token}, close.kind = .symbol .rightBrace → ∀ (s : Stream) (errs : List ParseError),
      Settles pairs ⟨s.prepend (xs ++ [close]), errs⟩ (.done ps ⟨s, errs⟩)
  | _, _, .none, close, hclose, s, errs => by
    refine .succ ?_
    simp only [pairs]
    exact settles_peek (.ite_pos hclose (settles_take (settles_pure _ _)))
  | _, _, .one key hcolon value, close, hclose, s, errs => by
    refine .succ ?_
    simp only [pairs]
    rw [List.append_assoc, List.cons_append]
    refine settles_peek (.ite_neg (s.head_prepend_ne key.starts (by decide) _) ?_)
    refine .bind ((completes_phrase key).settles_before hcolon (by decide) s errs) ?_
    refine settles_symbol hcolon ?_
    refine .bind ((completes_phrase value).settles_before hclose (by decide) s errs) ?_
    refine settles_peek (.ite_pos hclose ?_)
    refine .bind (.succ ?_) (settles_pure _ _)
    simp only [pairs]
    exact settles_peek (.ite_pos hclose (settles_take (settles_pure _ _)))
  | _, _, .cons key hcolon value hcomma rest, close, hclose, s, errs => by
    refine .succ ?_
    simp only [pairs]
    rw [List.append_assoc, List.cons_append, List.append_assoc, List.cons_append]
    refine settles_peek (.ite_neg (s.head_prepend_ne key.starts (by decide) _) ?_)
    refine .bind ((completes_phrase key).settles_before hcolon (by decide) s errs) ?_
    refine settles_symbol hcolon ?_
    refine .bind ((completes_phrase value).settles_before hcomma (by decide) s errs) ?_
    refine settles_peek (.ite_neg (by simp [hcomma]) ?_)
    refine settles_symbol hcomma ?_
    exact .bind (settles_paired rest hclose s errs) (settles_pure _ _)

/-- A block starts with a brace, which was taken when its reader is called, and its reader takes
the other one. -/
theorem settles_enclosed : ∀ {xs : List Token} {b : Block}, Enclosed xs b →
    ∃ t ys, xs = t :: ys ∧ t.kind = .symbol .leftBrace ∧ ∀ s errs,
      Settles (fun depth ↦ block depth t) ⟨Stream.prepend s ys, errs⟩ (.done b ⟨s, errs⟩)
  | _, _, .mk ht h hclose => by
    refine ⟨_, _, rfl, ht, fun s errs ↦ .succ ?_⟩
    simp only [block]
    rw [Stream.prepend_append]
    refine .bind (settles_sentences h rfl true (.inr ⟨rfl, hclose⟩) errs) ?_
    refine settles_take (.ite_neg (by simp [hclose]) (settles_pure _ _))

/-- What follows a statement matters only if it has no semicolon. -/
theorem settles_sentence : ∀ {xs : List Token} {next : Token} {stmt : Stmt},
    Sentence xs next stmt → ∀ {s : Stream}, s.head = next →
      (¬ EndsWithSemicolon xs → followsSentence next.kind = true) → ∀ errs,
        Settles statement ⟨s.prepend xs, errs⟩ (.done stmt ⟨s, errs⟩)
  | _, _, _, .letStmt ht hid hassign value hend, s, hs, hfollows, errs => by
    subst hs
    refine .succ ?_
    simp only [statement]
    refine settles_peek ?_
    simp only [Stream.head_prepend_cons, ht]
    refine settles_take (settles_identifier hid (settles_symbol hassign ?_))
    refine settles_closed (completes_phrase value) hend (fun hys ↦ hfollows ?_) errs
      (settles_pure _ _)
    rw [hys, List.append_nil]
    exact value.not_endsWithSemicolon [_, _, _]
  | _, _, _, .returnValue ht value hend, s, hs, hfollows, errs => by
    subst hs
    refine .succ ?_
    simp only [statement]
    refine settles_peek ?_
    simp only [Stream.head_prepend_cons, ht]
    refine settles_take (settles_peek (.ite_neg ?_ ?_))
    -- the first token of the value is none of those that end a `return`
    · rintro (h | h | h) <;> exact s.head_prepend_ne value.starts (by decide) _ h
    · refine settles_closed (completes_phrase value) hend (fun hys ↦ hfollows ?_) errs
        (settles_pure _ _)
      rw [hys, List.append_nil]
      exact value.not_endsWithSemicolon [_]
  | _, _, _, .returnNothing ht hys hend, s, hs, hfollows, errs => by
    subst hs
    refine .succ ?_
    simp only [statement]
    refine settles_peek ?_
    simp only [Stream.head_prepend_cons, ht]
    refine settles_take (settles_peek (.ite_pos ?_ (settles_skipIf ?_ (settles_pure _ _))))
    · rw [Stream.head_prepend]
      exact hend
    · obtain rfl | h := hys
      · refine .inr ⟨rfl, (ne_of_followsSentence (hfollows ?_)).2⟩
        rintro ⟨u, hu, hkind⟩
        cases hu
        exact TokenKind.noConfusion (ht.symm.trans hkind)
      · exact .inl h
  | _, _, _, .expression value hend, s, hs, hfollows, errs => by
    subst hs
    refine .succ ?_
    simp only [statement]
    refine settles_peek ?_
    split
    -- an expression starts with neither of the two words
    · rename_i hlet
      exact absurd hlet (s.head_prepend_ne value.starts (by decide) _)
    · rename_i hreturn
      exact absurd hreturn (s.head_prepend_ne value.starts (by decide) _)
    · refine settles_closed (completes_phrase value) hend (fun hys ↦ hfollows ?_) errs
        (settles_pure _ _)
      rw [hys, List.append_nil]
      exact value.not_endsWithSemicolon []

/-- Both at the end of a program and at the end of a block; the reader knows by `inBlock` which of
the two ends it is to stop at. -/
theorem settles_sentences : ∀ {xs : List Token} {next : Token} {ss : List Stmt},
    Sentences xs next ss → ∀ {s : Stream}, s.head = next → ∀ (inBlock : Bool),
      next.kind = .eof ∨ inBlock = true ∧ next.kind = .symbol .rightBrace → ∀ errs,
      Settles (fun depth ↦ statements depth inBlock) ⟨s.prepend xs, errs⟩ (.done ss ⟨s, errs⟩)
  | _, _, _, .none, s, hs, inBlock, hend, errs => by
    refine .succ ?_
    simp only [statements]
    refine settles_peek (.ite_pos ?_ (settles_pure _ _))
    rw [Stream.prepend_nil, hs]
    exact hend
  | _, _, _, .cons first rest, s, hs, inBlock, hend, errs => by
    refine .succ ?_
    simp only [statements]
    refine settles_peek (.ite_neg ?_ ?_)
    · rintro (h | ⟨-, h⟩) <;> exact s.head_prepend_ne first.starts (by decide) _ h
    · rw [Stream.prepend_append]
      have hfollows := rest.follows (hend.imp_right And.right)
      have hfirst := settles_sentence first (by rw [Stream.head_prepend, hs])
        (fun _ ↦ hfollows) errs
      refine .bind (settles_attempt hfirst) ?_
      exact .bind (settles_sentences rest hs inBlock hend errs) (settles_pure _ _)

end

end Parser

/-! ## Whole programs -/

/-- **What the grammar derives is read without error.** -/
theorem parseProgram_of_derives {text : String} {p : Program} (h : Derives (tokenize text) p) :
    parseProgram text = .ok p := by
  obtain ⟨xs, finish, htokens, hfinish, hsentences⟩ := h
  obtain ⟨rfl, hhead⟩ : (Cursor.ofText text).stream.pending = xs ∧
      [Token.eof (Cursor.ofText text).stream.finish] = [finish] := List.append_inj' htokens rfl
  have hsettles := Parser.settles_sentences hsentences
    (s := ⟨[], (Cursor.ofText text).stream.finish⟩) (List.cons.inj hhead).1 false (.inl hfinish) []
  rw [Stream.prepend, List.append_nil] at hsettles
  have hparse : parse text = ⟨⟨p.statements⟩, []⟩ := Stream.parse_of_settles hsettles
  rw [parseProgram, hparse]
  rfl

/-- **The programs that are read without error are those of the grammar.**  So a text has at most
one program. -/
theorem parseProgram_eq_ok_iff (text : String) :
    (∀ p, parseProgram text = .ok p ↔ Derives (tokenize text) p) ∧
      ∀ p q, Derives (tokenize text) p → Derives (tokenize text) q → p = q := by
  refine ⟨fun p ↦ ⟨derives_of_parseProgram, parseProgram_of_derives⟩, fun p q hp hq ↦ ?_⟩
  have h : Except.ok p = Except.ok q :=
    (parseProgram_of_derives hp).symm.trans (parseProgram_of_derives hq)
  exact Except.ok.inj h

end MonkeyLang
