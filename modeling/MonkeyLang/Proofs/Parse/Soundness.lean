import MonkeyLang.Proofs.Parse.Depth
import MonkeyLang.Proofs.Parse.Tier
import MonkeyLang.Proofs.Token.Layout

/-!
# What is read without error is in the grammar

`Parser.Reads D read` says what a reader has read when it is done and has recorded no error: tokens
`xs` in front of a token `next`, and a value `v` with `D xs next v`.  The lemmas about `Reads` go
through a reader step by step, from the front: after a step that took some tokens, the rest of the
reader has to read what is missing to them.

The main statement is `derives_of_parseProgram`.  The heart of it is `reads_climb`.  When the loop
over the continuations of an expression goes on, what it has collected so far belongs to a tier at
least as tight as the next token binds.

## The shape of the predicate

Errors are only ever added, so a run without errors at its end had none in between.  This is why
`Reads` has both in it, that errors are kept and what was read if there are none: the first part
passes the assumption of the second one back to earlier steps.

The relation `D` looks at one token behind what was read, because the grammar does.  When readers
are put one after the other, that token is the first one that the next reader takes, or the one
behind it if it takes none: `following`.

## The loop

A reader of expressions at a level reads an operand, and then goes on as long as a token binds
tighter than the level.  The invariant cannot be that what was collected is a phrase of the tier
above the level, since this would not do for the left side of the next operator, which may bind
tighter than what was collected.  It says more: that the tier of what was collected is at least the
rank of the next token.  An operand satisfies it because no token binds tighter than an operand,
and one round of the loop reads the right side of an operator at the level of that operator, so
that the next token cannot bind tighter than it.
-/

set_option autoImplicit false

namespace MonkeyLang

open Grammar

/-! ## Tokens taken from a stream -/

/-- `xs` are the next tokens of `s`, and `t` is the stream after them. -/
def Stream.Takes (s : Stream) : List Token → Stream → Prop
  | [], t => t = s
  | x :: xs, t => x = s.head ∧ s.tail.Takes xs t

namespace Stream

/-- What was taken in two steps was taken in one. -/
theorem Takes.append {s t u : Stream} {xs ys : List Token} (h : s.Takes xs t) (h' : t.Takes ys u) :
    s.Takes (xs ++ ys) u := by
  induction xs generalizing s with
  | nil =>
    obtain rfl : t = s := h
    exact h'
  | cons x xs ih => exact ⟨h.1, ih h.2⟩

/-- The first token taken, or the one behind them if there are none, is the head of the stream. -/
theorem Takes.following {s t : Stream} {xs : List Token} (h : s.Takes xs t) :
    following xs t.head = s.head := by
  cases xs with
  | nil =>
    obtain rfl : t = s := h
    rfl
  | cons x xs => exact h.1

/-- If neither the tokens taken nor the pending ones hold an end of the input, and then the end
comes, then all pending tokens were taken. -/
theorem Takes.eq_pending {s t : Stream} {xs : List Token} (h : s.Takes xs t)
    (hxs : ∀ x ∈ xs, x.kind ≠ .eof) (hpending : ∀ x ∈ s.pending, x.kind ≠ .eof)
    (heof : t.head.kind = .eof) : s.pending = xs ∧ t.head = .eof s.finish := by
  obtain ⟨pending, finish⟩ := s
  induction xs generalizing pending with
  | nil =>
    obtain rfl : t = ⟨pending, finish⟩ := h
    cases pending with
    | nil => exact ⟨rfl, rfl⟩
    | cons y ys => exact absurd heof (hpending y List.mem_cons_self)
  | cons x xs ih =>
    obtain ⟨hx, htail⟩ := h
    cases pending with
    | nil =>
      have hkind : x.kind = .eof := by rw [hx]; rfl
      exact absurd hkind (hxs x List.mem_cons_self)
    | cons y ys =>
      obtain rfl : x = y := hx
      obtain ⟨hys, hhead⟩ := ih (fun z hz ↦ hxs z (List.mem_cons_of_mem _ hz)) ys htail
        fun z hz ↦ hpending z (List.mem_cons_of_mem _ hz)
      exact ⟨congrArg _ hys, hhead⟩

end Stream

namespace Parser

/-! ## Reading without error

There is a lemma for each way in which a reader is put together.  The ones for taking a token put
it in front of what the rest has to read. -/

/-- What a reader is done with, if it records no error: it takes tokens `xs` in front of a token
`next` and gives a value `v` with `D xs next v`.  The token behind what was read is part of the
relation, since the grammar looks at it too.  It is about readers that record no error, so nothing
is said of texts with errors. -/
def Reads {α : Type} (D : List Token → Token → α → Prop) (read : Parser α) : Prop :=
  ∀ s v t, read s = .done v t → s.errors <+: t.errors ∧
    (t.errors = s.errors → ∃ xs, s.stream.Takes xs t.stream ∧ D xs t.stream.head v)

namespace Reads

variable {α β : Type} {D : List Token → Token → α → Prop} {E : List Token → Token → β → Prop}

/-- What a reader gives can be described more loosely. -/
theorem imp {D' : List Token → Token → α → Prop} {read : Parser α} (h : Reads D read)
    (hD : ∀ xs next v, D xs next v → D' xs next v) : Reads D' read := by
  intro s v t hdone
  obtain ⟨hle, hread⟩ := h s v t hdone
  refine ⟨hle, fun heq ↦ ?_⟩
  obtain ⟨xs, htakes, hd⟩ := hread heq
  exact ⟨xs, htakes, hD xs _ v hd⟩

theorem pure {v : α} (h : ∀ next, D [] next v) : Reads D (pure v : Parser α) := by
  intro s w t hdone
  obtain ⟨rfl, rfl⟩ : v = w ∧ s = t := by simpa using hdone
  exact ⟨List.prefix_refl _, fun _ ↦ ⟨[], rfl, h _⟩⟩

theorem fail (e : ParseError) : Reads D (fail e : Parser α) :=
  fun _ _ _ hdone ↦ absurd hdone (by simp [Parser.fail])

theorem exhaust : Reads D (Action.exhaust : Parser α) :=
  fun _ _ _ hdone ↦ absurd hdone (by simp)

theorem ite {c : Prop} [Decidable c] {read other : Parser α} (h : c → Reads D read)
    (h' : ¬ c → Reads D other) : Reads D (if c then read else other) := by
  split
  · exact h ‹_›
  · exact h' ‹_›

/-- After a first reader, the second one has to read what completes the tokens of the first. -/
theorem bind {read : Parser α} {next : α → Parser β} (h : Reads D read)
    (hnext : ∀ v xs,
      Reads (fun ys nxt w ↦ D xs (following ys nxt) v → E (xs ++ ys) nxt w) (next v)) :
    Reads E (read >>= next) := by
  intro s w u hdone
  obtain ⟨v, t, hread, hrest⟩ := Action.bind_eq_done hdone
  obtain ⟨hst, hfirst⟩ := h s v t hread
  obtain ⟨htu, hsecond⟩ := hnext v [] t w u hrest
  refine ⟨hst.trans htu, fun heq ↦ ?_⟩
  have hts : t.errors = s.errors := (hst.eq_of_length_le (by rw [← heq]; exact htu.length_le)).symm
  obtain ⟨xs, htakes, hD⟩ := hfirst hts
  obtain ⟨ys, htakes', hE⟩ := (hnext v xs t w u hrest).2 (heq.trans hts.symm)
  refine ⟨xs ++ ys, htakes.append htakes', hE ?_⟩
  rw [htakes'.following]
  exact hD

/-- Looking at a token tells what the rest starts with. -/
theorem peek_bind {next : Token → Parser β}
    (h : ∀ t, Reads (fun xs nxt v ↦ following xs nxt = t → E xs nxt v) (next t)) :
    Reads E (peek >>= next) := by
  intro s v t hdone
  obtain ⟨hle, hread⟩ := h s.stream.head s v t hdone
  refine ⟨hle, fun heq ↦ ?_⟩
  obtain ⟨xs, htakes, hE⟩ := hread heq
  exact ⟨xs, htakes, hE htakes.following⟩

/-- A token that is taken comes before what the rest reads. -/
theorem take_bind {next : Token → Parser β}
    (h : ∀ t, Reads (fun xs nxt v ↦ E (t :: xs) nxt v) (next t)) : Reads E (take >>= next) := by
  intro s v t hdone
  obtain ⟨hle, hread⟩ := h s.stream.head _ v t hdone
  refine ⟨hle, fun heq ↦ ?_⟩
  obtain ⟨xs, htakes, hE⟩ := hread heq
  exact ⟨s.stream.head :: xs, ⟨rfl, htakes⟩, hE⟩

theorem expect_bind {expected : TokenType} {next : Token → Parser β}
    (h : ∀ t, t.type = expected → Reads (fun xs nxt v ↦ E (t :: xs) nxt v) (next t)) :
    Reads E (expect expected >>= next) := by
  intro s v t hdone
  obtain ⟨x, s', hexpect, hrest⟩ := Action.bind_eq_done hdone
  by_cases htype : s.stream.head.type = expected
  · rw [expect_of_eq htype] at hexpect
    obtain ⟨rfl, rfl⟩ : s.stream.head = x ∧ _ = s' := by simpa using hexpect
    obtain ⟨hle, hread⟩ := h _ htype _ v t hrest
    refine ⟨hle, fun heq ↦ ?_⟩
    obtain ⟨xs, htakes, hE⟩ := hread heq
    exact ⟨s.stream.head :: xs, ⟨rfl, htakes⟩, hE⟩
  · rw [expect_of_ne htype] at hexpect
    exact absurd hexpect (by simp)

/-- There was a token of this type, or there was none and another one is in front. -/
theorem skipIf (wanted : TokenType) :
    Reads (fun xs nxt _ ↦ (∃ t, xs = [t] ∧ t.type = wanted) ∨ xs = [] ∧ nxt.type ≠ wanted)
      (skipIf wanted) := by
  refine peek_bind fun t ↦ ite (fun ht ↦ take_bind fun x ↦ pure fun nxt hx ↦ ?_) fun ht ↦
    pure fun nxt hx ↦ ?_
  · obtain rfl : x = t := hx
    exact .inl ⟨x, rfl, ht⟩
  · obtain rfl : nxt = t := hx
    exact .inr ⟨rfl, ht⟩

/-- A reader that failed has recorded an error, so an attempt without errors has succeeded. -/
theorem attempt {n : Nat} {read : Parser α} (h : Reads D read) (hmoves : Moves n read) :
    Reads (fun xs nxt v ↦ ∃ w, v = some w ∧ D xs nxt w) (attempt read) := by
  intro s v t hdone
  have hs := hmoves s
  rw [Parser.attempt] at hdone
  cases hread : read s with
  | done w u =>
    rw [hread] at hdone
    obtain ⟨rfl, rfl⟩ : some w = v ∧ u = t := by simpa using hdone
    obtain ⟨hle, hclean⟩ := h s w u hread
    refine ⟨hle, fun heq ↦ ?_⟩
    obtain ⟨xs, htakes, hD⟩ := hclean heq
    exact ⟨xs, htakes, w, rfl, hD⟩
  | stop e u =>
    rw [hread] at hdone hs
    obtain ⟨rfl, rfl⟩ : none = v ∧ u = t := by simpa using hdone
    refine ⟨hs.1.errors, fun heq ↦ ?_⟩
    have hlt := hs.2
    rw [heq] at hlt
    exact absurd hlt (Nat.lt_irrefl _)
  | exhausted =>
    rw [hread] at hdone
    exact absurd hdone (by simp)

end Reads

end Parser

/-! ## Types of tokens

A reader expects a token of some type.  For symbols and keywords the type is the kind, and for
names the kind is known up to the name. -/

namespace Token

theorem kind_of_type_symbol {t : Token} {s : Symbol} (h : t.type = .symbol s) :
    t.kind = .symbol s := by
  rw [Token.type, TokenKind.type.eq_def] at h
  split at h <;> simp_all

theorem kind_of_type_ident {t : Token} (h : t.type = .ident) : t.kind = .ident t.literal := by
  rw [Token.type, TokenKind.type.eq_def] at h
  rw [Token.literal, TokenKind.literal.eq_def]
  split at h <;> simp_all

end Token

namespace Parser

/-! ## Parameters -/

theorem reads_identifier_bind {β : Type} {E : List Token → Token → β → Prop}
    {next : Identifier → Parser β}
    (h : ∀ (t : Token) name, t.kind = .ident name →
      Reads (fun xs nxt v ↦ E (t :: xs) nxt v) (next ⟨t, name⟩)) :
    Reads E (identifier >>= next) := by
  rw [identifier, bind_assoc]
  refine .expect_bind fun t ht ↦ ?_
  exact h t t.literal (Token.kind_of_type_ident ht)

/-- After the first name, with the closing parenthesis.  The first name was read before, so the
lemma speaks of it as given. -/
theorem reads_moreParameters (depth : Nat) :
    Reads (fun xs _ ids ↦ ∃ ys close, xs = ys ++ [close] ∧ close.kind = .symbol .rightParen ∧
      ∀ (t : Token) name, t.kind = .ident name → Names (t :: ys) (⟨t, name⟩ :: ids))
      (moreParameters depth) := by
  induction depth with
  | zero => exact .exhaust
  | succ depth ih =>
    refine .peek_bind fun t ↦ .ite (fun hcomma ↦ ?_) fun _ ↦ ?_
    · refine .take_bind fun comma ↦ reads_identifier_bind fun u name hu ↦ ?_
      refine ih.bind fun ids xs ↦ .pure fun nxt ↦ ?_
      rintro ⟨ys, close, rfl, hclose, hnames⟩ hpeek
      obtain rfl : comma = t := hpeek
      exact ⟨comma :: u :: ys, close, by simp, hclose,
        fun t name ht ↦ .cons ht hcomma (hnames u _ hu)⟩
    · refine .expect_bind fun close hclose ↦ .pure fun nxt hpeek ↦ ?_
      exact ⟨[], close, rfl, Token.kind_of_type_symbol hclose, fun t name ht ↦ .one ht⟩

theorem reads_parameters (depth : Nat) :
    Reads (fun xs _ ids ↦ ∃ ys close, xs = ys ++ [close] ∧ close.kind = .symbol .rightParen ∧
      Parameters ys ids) (parameters depth) := by
  refine .peek_bind fun t ↦ .ite (fun hclose ↦ ?_) fun _ ↦ ?_
  · refine .take_bind fun close ↦ .pure fun nxt hpeek ↦ ?_
    obtain rfl : close = t := hpeek
    exact ⟨[], close, rfl, hclose, .none⟩
  · refine reads_identifier_bind fun u name hu ↦ ?_
    refine (reads_moreParameters depth).bind fun ids xs ↦ .pure fun nxt ↦ ?_
    rintro ⟨ys, close, rfl, hclose, hnames⟩ -
    exact ⟨u :: ys, close, by simp, hclose, .some (hnames u name hu)⟩

/-! ## Expressions, statements and blocks -/

/-- What is read as an expression at a level: a phrase of the tier above it, in front of a token
that does not bind tighter than the level. -/
def ExpressionAt (level : Precedence) (xs : List Token) (nxt : Token) (e : Expr) : Prop :=
  Phrase (.above level) xs e ∧ ¬ level < Precedence.ofKind nxt.kind

/-- What is read as an operand: a phrase that the next token cannot break up, because the phrase
belongs to a tier that binds at least as tight as that token. -/
def OperandBefore (xs : List Token) (nxt : Token) (e : Expr) : Prop :=
  ∃ tier : Tier, Tier.unary.rank ≤ tier.rank ∧ (Precedence.ofKind nxt.kind).rank ≤ tier.rank ∧
    Phrase tier xs e

/-- What is read as the rest of an expression that starts with `left`.  The tokens of `left` are
not among `xs`, so the relation says which phrase they form together with tokens given for `left`.
-/
def RestOf (level : Precedence) (left : Expr) (xs : List Token) (nxt : Token) (e : Expr) : Prop :=
  ∀ (tier : Tier) ys, Phrase tier ys left → (Tier.above level).rank ≤ tier.rank →
    (Precedence.ofKind (following xs nxt).kind).rank ≤ tier.rank →
      ExpressionAt level (ys ++ xs) nxt e

/-- What is read as a continuation of `left` by the token `t`. -/
def ContinuationOf (t : Token) (left : Expr) (xs : List Token) (nxt : Token) (e : Expr) : Prop :=
  ∀ (tier : Tier) ys, Phrase tier ys left → (Precedence.ofKind t.kind).rank ≤ tier.rank →
    ∃ tier' : Tier, tier'.rank = (Precedence.ofKind t.kind).rank ∧
      (Precedence.ofKind nxt.kind).rank ≤ tier'.rank ∧ Phrase tier' (ys ++ t :: xs) e

/-- Nothing binds tighter than a call. -/
theorem rank_ofKind_le (kind : TokenKind) : (Precedence.ofKind kind).rank ≤ 6 := by
  cases Precedence.ofKind kind <;> decide

/-- No token breaks up what needs no brackets. -/
theorem operandBefore_atom {xs : List Token} {nxt : Token} {e : Expr} (h : Phrase .atom xs e) :
    OperandBefore xs nxt e :=
  ⟨.atom, by decide, (rank_ofKind_le nxt.kind).trans (by decide), h⟩

/-- A numeral that was read is below the limit. -/
theorem integer?_eq_some {digits : String} {n : Int64} (h : integer? digits = some n) :
    Decimal.value digits.toList < Nat.pow 2 63 ∧ n = Int64.ofNat (Decimal.value digits.toList) := by
  rw [integer?] at h
  by_cases hlt : Decimal.value digits.toList < integerLimit
  · rw [if_pos hlt, Option.some_inj] at h
    exact ⟨hlt, h.symm⟩
  · rw [if_neg hlt] at h
    exact absurd h (by simp)

/-- The end of a statement, whether its semicolon was there or not. -/
theorem closing_of_skipIf {xs : List Token} {nxt : Token}
    (h : (∃ t : Token, xs = [t] ∧ t.type = .symbol .semicolon) ∨
      xs = [] ∧ nxt.type ≠ .symbol .semicolon)
    (hnext : ¬ Precedence.lowest < Precedence.ofKind (following xs nxt).kind) :
    Closing xs nxt := by
  obtain ⟨t, rfl, ht⟩ | ⟨rfl, -⟩ := h
  · exact .inl ⟨t, rfl, Token.kind_of_type_symbol ht⟩
  · exact .inr ⟨rfl, fun hc ↦ hnext ((continues_iff _).1 hc)⟩

mutual

/-- An operand, and the rest of an expression that starts with it. -/
theorem reads_expression : ∀ depth level, Reads (ExpressionAt level) (expression depth level)
  | 0, _ => .exhaust
  | depth + 1, level => by
    refine (reads_operand depth).bind fun left xs ↦ (reads_climb depth level left).imp ?_
    rintro ys nxt e hrest ⟨tier, hunary, hnext, hleft⟩
    refine hrest tier xs hleft ?_ hnext
    cases level <;> exact Nat.le_trans (by decide) hunary

/-- The invariant of the loop: `left` belongs to a tier at least as tight as the next token binds,
so it can be the left side of whatever that token starts. -/
theorem reads_climb : ∀ depth level left, Reads (RestOf level left) (climb depth level left)
  | 0, _, _ => .exhaust
  | depth + 1, level, left => by
    refine .peek_bind fun t ↦ .ite (fun hlevel ↦ ?_) fun hlevel ↦ ?_
    · split
      · rename_i hnone
        exact absurd hnone (continuation?_ne_none hlevel)
      · rename_i way hway
        refine .take_bind fun x ↦ (reads_continued depth way t left hway).bind fun longer xs ↦
          (reads_climb depth level longer).imp ?_
        rintro zs nxt e hrest hcontinued hpeek tier ys hleft hlevel' hnext
        obtain rfl : x = t := hpeek
        obtain ⟨tier', hrank, hnext', hlonger⟩ := hcontinued tier ys hleft hnext
        have habove : (Tier.above level).rank ≤ tier'.rank :=
          Tier.rank_above_le (by rw [hrank]; exact hlevel)
        have h := hrest tier' _ hlonger habove hnext'
        rwa [List.append_assoc, List.cons_append] at h
    · refine .pure fun nxt hpeek tier ys hleft hlevel' _ ↦ ?_
      obtain rfl : nxt = t := hpeek
      rw [List.append_nil]
      exact ⟨hleft.loosen hlevel', hlevel⟩

/-- A continuation was chosen by the table, so its tier is known, and with it the tier of the
result. -/
theorem reads_continued : ∀ depth way (t : Token) left, continuation? t.kind = some way →
    Reads (ContinuationOf t left) (continued depth way t left)
  | 0, _, _, _, _ => .exhaust
  | depth + 1, .operation, t, left, hway => by
    obtain ⟨tier', op, hop, hkind, hofKind, hrank, habove⟩ := operator_of_operation hway
    rw [continued, hofKind]
    refine (reads_expression depth _).bind fun right xs ↦ .pure fun nxt ↦ ?_
    rintro ⟨hright, hnext⟩ tier ys hleft htier
    refine ⟨tier', hrank, ?_, ?_⟩
    · rw [hrank]
      exact Nat.not_lt.1 hnext
    · rw [List.append_nil]
      rw [habove] at hright
      exact .operation hop hkind (hleft.loosen (hrank ▸ htier)) hright
  | depth + 1, .call, t, left, hway => by
    have ht : t.kind = .symbol .leftParen := kind_of_call hway
    refine (reads_expressions depth _).bind fun arguments xs ↦ .pure fun nxt ↦ ?_
    rintro ⟨zs, close, rfl, hclose, hlist⟩ tier ys hleft htier
    rw [ht] at htier ⊢
    refine ⟨.application, rfl, rank_ofKind_le _, ?_⟩
    rw [List.append_nil]
    exact .call (hleft.loosen htier) ht hlist (Token.kind_of_type_symbol hclose)
  | depth + 1, .index, t, left, hway => by
    have ht : t.kind = .symbol .leftBracket := kind_of_index hway
    refine (reads_expression depth _).bind fun position xs ↦ .expect_bind fun close hclose ↦
      .pure fun nxt ↦ ?_
    rintro ⟨hposition, -⟩ tier ys hleft htier
    rw [ht] at htier ⊢
    refine ⟨.application, rfl, rank_ofKind_le _, ?_⟩
    exact .index (hleft.loosen htier) ht hposition (Token.kind_of_type_symbol hclose)

/-- By cases on the first token, one for each way in which the grammar starts an operand. -/
theorem reads_operand : ∀ depth, Reads OperandBefore (operand depth)
  | 0 => .exhaust
  | depth + 1 => by
    refine .take_bind fun t ↦ ?_
    split
    · rename_i hkind
      exact .pure fun nxt ↦ operandBefore_atom (.ident hkind)
    · rename_i digits hkind
      split
      · rename_i n hn
        obtain ⟨hlimit, rfl⟩ := integer?_eq_some hn
        exact .pure fun nxt ↦ operandBefore_atom (.int hkind hlimit)
      · exact .fail _
    · rename_i hkind
      exact .pure fun nxt ↦ operandBefore_atom (.string hkind)
    · rename_i hkind
      exact .pure fun nxt ↦ operandBefore_atom (.boolTrue hkind)
    · rename_i hkind
      exact .pure fun nxt ↦ operandBefore_atom (.boolFalse hkind)
    · rename_i hkind
      rw [hkind]
      refine (reads_expression depth _).bind fun right xs ↦ .pure fun nxt ↦ ?_
      rintro ⟨hright, hnext⟩
      rw [List.append_nil]
      exact ⟨.unary, Nat.le_refl _, Nat.not_lt.1 hnext, .sign (.inl rfl) hkind hright⟩
    · rename_i hkind
      rw [hkind]
      refine (reads_expression depth _).bind fun right xs ↦ .pure fun nxt ↦ ?_
      rintro ⟨hright, hnext⟩
      rw [List.append_nil]
      exact ⟨.unary, Nat.le_refl _, Nat.not_lt.1 hnext, .sign (.inr rfl) hkind hright⟩
    · rename_i hkind
      refine (reads_expression depth _).bind fun inner xs ↦ .expect_bind fun close hclose ↦
        .pure fun nxt ↦ ?_
      rintro ⟨hinner, -⟩
      exact operandBefore_atom (.group hkind hinner (Token.kind_of_type_symbol hclose))
    · rename_i hkind
      exact (reads_conditional depth t hkind).imp fun xs nxt e h ↦ operandBefore_atom h
    · rename_i hkind
      refine .expect_bind fun left hleft ↦ (reads_parameters depth).bind fun ids xs ↦
        .expect_bind fun brace hbrace ↦
          (reads_block depth brace (Token.kind_of_type_symbol hbrace)).bind fun body ys ↦
            .pure fun nxt ↦ ?_
      rintro hbody ⟨zs, right, rfl, hright, hparameters⟩
      refine operandBefore_atom ?_
      have h := Phrase.function hkind (Token.kind_of_type_symbol hleft) hparameters hright hbody
      simpa using h
    · rename_i hkind
      refine (reads_expressions depth _).bind fun elements xs ↦ .pure fun nxt ↦ ?_
      rintro ⟨ys, close, rfl, hclose, hlist⟩
      rw [List.append_nil]
      exact operandBefore_atom (.array hkind hlist (Token.kind_of_type_symbol hclose))
    · rename_i hkind
      refine (reads_pairs depth).bind fun entries xs ↦ .pure fun nxt ↦ ?_
      rintro ⟨ys, close, rfl, hclose, hlist, -⟩
      rw [List.append_nil]
      exact operandBefore_atom (.hash hkind hlist hclose)
    · exact .fail _

theorem reads_conditional : ∀ depth (t : Token), t.kind = .keyword .kwIf →
    Reads (fun xs _ e ↦ Phrase .atom (t :: xs) e) (conditional depth t)
  | 0, _, _ => .exhaust
  | depth + 1, t, ht => by
    refine .expect_bind fun left hleft ↦ (reads_expression depth _).bind fun condition xs ↦
      .expect_bind fun right hright ↦ .expect_bind fun brace hbrace ↦
        (reads_block depth brace (Token.kind_of_type_symbol hbrace)).bind fun consequence ys ↦
          .peek_bind fun next ↦ .ite (fun helse ↦ ?_) fun _ ↦ ?_
    · refine .take_bind fun kwElse ↦ .expect_bind fun brace' hbrace' ↦
        (reads_block depth brace' (Token.kind_of_type_symbol hbrace')).bind fun alternative zs ↦
          .pure fun nxt ↦ ?_
      rintro halternative hpeek hconsequence ⟨hcondition, -⟩
      obtain rfl : kwElse = next := hpeek
      have h := Phrase.condElse ht (Token.kind_of_type_symbol hleft) hcondition
        (Token.kind_of_type_symbol hright) hconsequence helse halternative
      simpa using h
    · refine .pure fun nxt hpeek hconsequence ⟨hcondition, _⟩ ↦ ?_
      have h := Phrase.cond ht (Token.kind_of_type_symbol hleft) hcondition
        (Token.kind_of_type_symbol hright) hconsequence
      simpa using h

theorem reads_expressions : ∀ depth close,
    Reads (fun xs _ es ↦ ∃ ys t, xs = ys ++ [t] ∧ t.type = close ∧ Listed ys es)
      (expressions depth close)
  | 0, _ => .exhaust
  | depth + 1, close => by
    refine .peek_bind fun t ↦ .ite (fun ht ↦ ?_) fun _ ↦ ?_
    · refine .take_bind fun x ↦ .pure fun nxt hpeek ↦ ?_
      obtain rfl : x = t := hpeek
      exact ⟨[], x, rfl, ht, .none⟩
    · refine (reads_expression depth _).bind fun first xs ↦
        (reads_moreExpressions depth close).bind fun rest ys ↦ .pure fun nxt ↦ ?_
      rintro ⟨zs, x, rfl, hx, hitems⟩ ⟨hfirst, -⟩ -
      exact ⟨xs ++ zs, x, by simp, hx, .some (hitems xs first hfirst)⟩

theorem reads_moreExpressions : ∀ depth close,
    Reads (fun xs _ es ↦ ∃ ys t, xs = ys ++ [t] ∧ t.type = close ∧
      ∀ zs e, Phrase .equality zs e → Items (zs ++ ys) (e :: es)) (moreExpressions depth close)
  | 0, _ => .exhaust
  | depth + 1, close => by
    refine .peek_bind fun t ↦ .ite (fun hcomma ↦ ?_) fun _ ↦ ?_
    · refine .take_bind fun comma ↦ (reads_expression depth _).bind fun first xs ↦
        (reads_moreExpressions depth close).bind fun rest ys ↦ .pure fun nxt ↦ ?_
      rintro ⟨zs, x, rfl, hx, hitems⟩ ⟨hfirst, -⟩ hpeek
      obtain rfl : comma = t := hpeek
      exact ⟨comma :: (xs ++ zs), x, by simp, hx,
        fun ws e he ↦ .cons he hcomma (hitems xs first hfirst)⟩
    · refine .expect_bind fun x hx ↦ .pure fun nxt hpeek ↦ ?_
      exact ⟨[], x, rfl, hx, fun zs e he ↦ by rw [List.append_nil]; exact .one he⟩

/-- In front of a closing brace there are no more pairs. -/
theorem reads_pairs : ∀ depth,
    Reads (fun xs nxt pairs ↦ ∃ ys t, xs = ys ++ [t] ∧ t.kind = .symbol .rightBrace ∧
      Paired ys pairs ∧ ((following xs nxt).kind = .symbol .rightBrace → ys = [] ∧ pairs = []))
      (pairs depth)
  | 0 => .exhaust
  | depth + 1 => by
    refine .peek_bind fun t ↦ .ite (fun ht ↦ ?_) fun ht ↦ ?_
    · refine .take_bind fun x ↦ .pure fun nxt hpeek ↦ ?_
      obtain rfl : x = t := hpeek
      exact ⟨[], x, rfl, ht, .none, fun _ ↦ ⟨rfl, rfl⟩⟩
    · refine (reads_expression depth _).bind fun key xs ↦ .expect_bind fun colon hcolon ↦
        (reads_expression depth _).bind fun value ys ↦ .peek_bind fun next ↦
          .ite (fun hnext ↦ ?_) fun _ ↦ .expect_bind fun comma hcomma ↦ ?_
      · refine (reads_pairs depth).bind fun rest zs ↦ .pure fun nxt ↦ ?_
        rintro ⟨ws, x, rfl, hx, -, hnone⟩ hpeek ⟨hvalue, -⟩ ⟨hkey, -⟩ hfirst
        obtain ⟨rfl, rfl⟩ := hnone (by rw [List.append_nil] at hpeek; exact hpeek ▸ hnext)
        refine ⟨xs ++ colon :: ys, x, by simp, hx,
          .one hkey (Token.kind_of_type_symbol hcolon) hvalue, fun h ↦ absurd (hfirst ▸ h) ht⟩
      · refine (reads_pairs depth).bind fun rest zs ↦ .pure fun nxt ↦ ?_
        rintro ⟨ws, x, rfl, hx, hrest, -⟩ hpeek ⟨hvalue, -⟩ ⟨hkey, -⟩ hfirst
        refine ⟨xs ++ colon :: (ys ++ comma :: ws), x, by simp, hx,
          .cons hkey (Token.kind_of_type_symbol hcolon) hvalue (Token.kind_of_type_symbol hcomma)
            hrest, fun h ↦ absurd (hfirst ▸ h) ht⟩

theorem reads_statement : ∀ depth, Reads Sentence (statement depth)
  | 0 => .exhaust
  | depth + 1 => by
    refine .peek_bind fun t ↦ ?_
    split
    · rename_i hkind
      refine .take_bind fun x ↦ reads_identifier_bind fun id name hid ↦
        .expect_bind fun assign hassign ↦ (reads_expression depth _).bind fun value xs ↦
          (Reads.skipIf _).bind fun _ ys ↦ .pure fun nxt ↦ ?_
      rintro hskip ⟨hvalue, hnext⟩ hpeek
      obtain rfl : x = t := hpeek
      rw [List.append_nil] at hnext ⊢
      exact .letStmt hkind hid (Token.kind_of_type_symbol hassign) hvalue
        (closing_of_skipIf hskip hnext)
    · rename_i hkind
      refine .take_bind fun x ↦ .peek_bind fun next ↦ .ite (fun hend ↦ ?_) fun _ ↦ ?_
      · refine (Reads.skipIf _).bind fun _ ys ↦ .pure fun nxt ↦ ?_
        rintro hskip hnext hpeek
        obtain rfl : x = t := hpeek
        rw [List.append_nil] at hnext ⊢
        refine .returnNothing hkind ?_ (hnext ▸ hend)
        obtain ⟨semicolon, rfl, hsemicolon⟩ | ⟨rfl, -⟩ := hskip
        · exact .inr ⟨semicolon, rfl, Token.kind_of_type_symbol hsemicolon⟩
        · exact .inl rfl
      · refine (reads_expression depth _).bind fun value xs ↦ (Reads.skipIf _).bind fun _ ys ↦
          .pure fun nxt ↦ ?_
        rintro hskip ⟨hvalue, hnext⟩ - hpeek
        obtain rfl : x = t := hpeek
        rw [List.append_nil] at hnext ⊢
        exact .returnValue hkind hvalue (closing_of_skipIf hskip hnext)
    · refine (reads_expression depth _).bind fun value xs ↦ (Reads.skipIf _).bind fun _ ys ↦
        .pure fun nxt ↦ ?_
      rintro hskip ⟨hvalue, hnext⟩ -
      rw [List.append_nil] at hnext ⊢
      exact .expression hvalue (closing_of_skipIf hskip hnext)

/-- A sequence without errors has no statement that failed, and it ends where nothing can follow:
at the end of the input or, in a block, at a brace. -/
theorem reads_statements : ∀ depth inBlock,
    Reads (fun xs nxt ss ↦ Sentences xs nxt ss ∧
      (nxt.kind = .eof ∨ inBlock = true ∧ nxt.kind = .symbol .rightBrace))
        (statements depth inBlock)
  | 0, _ => .exhaust
  | depth + 1, inBlock => by
    refine .peek_bind fun t ↦ .ite (fun hend ↦ .pure fun nxt hpeek ↦ ?_) fun _ ↦ ?_
    · obtain rfl : nxt = t := hpeek
      exact ⟨.none, hend⟩
    · refine ((reads_statement depth).attempt (moves_statement depth)).bind fun first xs ↦
        (reads_statements depth inBlock).bind fun rest ys ↦ .pure fun nxt ↦ ?_
      rintro ⟨hrest, hend⟩ ⟨s, rfl, hs⟩ -
      rw [List.append_nil] at hs ⊢
      exact ⟨.cons hs hrest, hend⟩

theorem reads_block : ∀ depth (brace : Token), brace.kind = .symbol .leftBrace →
    Reads (fun xs _ b ↦ Enclosed (brace :: xs) b) (block depth brace)
  | 0, _, _ => .exhaust
  | depth + 1, brace, hbrace => by
    refine (reads_statements depth true).bind fun body xs ↦ .take_bind fun close ↦
      .ite (fun _ ↦ .fail _) fun heof ↦ .pure fun nxt ↦ ?_
    rintro ⟨hbody, hend⟩
    exact .mk hbrace hbody (hend.resolve_left heof).2

end

end Parser

/-! ## Whole programs

The end of the input is the token behind the last statement.  Nothing else can be there, since the
reader of statements stops in front of an end only. -/

/-- Reading a whole stream comes to an end, and it stops early only with an error. -/
theorem Stream.parse_cases (s : Stream) :
    (∃ statements t, Parser.statements s.depth false ⟨s, []⟩ = .done statements t ∧
        s.parse = ⟨⟨statements⟩, t.errors⟩) ∨ s.parse.errors ≠ [] := by
  have hends : Parser.statements s.depth false ⟨s, []⟩ ≠ .exhausted :=
    Parser.endsWithin_statements s.depth s.pending.length false (by rw [depth]; omega) _
      (Nat.le_refl _)
  have hmoves := Parser.moves_statements s.depth false ⟨s, []⟩
  rw [parse]
  cases hread : Parser.statements s.depth false ⟨s, []⟩ with
  | done statements t => exact .inl ⟨statements, t, rfl, rfl⟩
  | stop e t =>
    rw [hread] at hmoves
    exact .inr (List.ne_nil_of_length_pos hmoves.2)
  | exhausted => exact absurd hread hends

/-- A text has a program if nothing is wrong with it, and this is what was read. -/
theorem parseProgram_eq_ok {text : String} {p : Program} :
    parseProgram text = .ok p ↔ (parse text).errors = [] ∧ (parse text).program = p := by
  simp only [parseProgram]
  split
  · rename_i hempty
    simp [List.isEmpty_iff.1 hempty]
  · rename_i hnonempty
    simp [List.isEmpty_iff] at hnonempty
    simp [hnonempty]

/-- **What is read without error is derived by the grammar.** -/
theorem derives_of_parseProgram {text : String} {p : Program} (h : parseProgram text = .ok p) :
    Derives (tokenize text) p := by
  obtain ⟨herrors, hprogram⟩ := parseProgram_eq_ok.1 h
  obtain ⟨statements, t, hread, hparse⟩ | hfailed := (Cursor.ofText text).stream.parse_cases
  · rw [parse, hparse] at herrors hprogram
    obtain ⟨-, hreads⟩ := Parser.reads_statements _ false _ _ _ hread
    obtain ⟨xs, htakes, hsentences, hend⟩ := hreads herrors
    have heof : t.stream.head.kind = .eof := by simpa using hend
    obtain ⟨hpending, hhead⟩ := htakes.eq_pending hsentences.ne_eof
      (Cursor.ofText text).kind_ne_eof_of_mem_pending heof
    refine ⟨xs, t.stream.head, ?_, heof, ?_⟩
    · rw [tokenize, Stream.tokens, hhead, ← hpending]
    · rw [← hprogram]
      exact hsentences
  · exact absurd herrors hfailed

end MonkeyLang
