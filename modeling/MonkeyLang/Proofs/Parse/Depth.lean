import MonkeyLang.Proofs.Parse.Progress

/-!
# The depth of recursion suffices

The readers recurse on a bound of their depth.  Two facts make the bound invisible.

* A reader that comes to an end keeps its outcome when the bound grows: the theorems
  `below_expression`, …, `below_statements`.
* With eight units for each token that is left, and a few more, a reader comes to an end: the
  theorems `endsWithin_expression`, …, `endsWithin_statements`.  The few units on top pay for the
  readers that call each other without taking a token in between.

So `Stream.parse` gives what the readers settle on (`Stream.parse_of_settles`).

## Where eight comes from

Between two tokens that are taken, readers can call each other for a few levels: a block calls
statements, these call a statement, an expression, an operand, and the operand takes a token.  The
theorems give each reader the number of levels that it may need before that, from one for an
operand to five for a block.  Eight for each token is more than that and leaves room.  Nothing
depends on its being small: the bound is a number that is computed once for each text.

## Why there is a bound at all

Structural recursion on a number lets the readers be evaluated, by the kernel as well as by
compiled code, and gives them the induction that their proofs use.  What it costs is this file.
The alternatives are discussed where the readers are defined.

A function without a bound, whose recursion Lean accepts without knowing that it ends, would be
simpler to write, and no proof could follow its recursion.
-/

set_option autoImplicit false

namespace MonkeyLang
namespace Parser

/-! ## More depth changes nothing -/

section Below

open MonkeyLang.Action

/-- Going on after a failure, with more depth: what was done or given up stays so. -/
theorem below_attempt {α : Type} {read read' : Parser α} (h : Below read read') :
    Below (attempt read) (attempt read') := by
  intro s hs
  rw [Parser.attempt] at hs
  rw [Parser.attempt, Parser.attempt, h s]
  rintro he
  rw [he] at hs
  exact hs rfl

theorem below_moreParameters (depth : Nat) :
    Below (moreParameters depth) (moreParameters (depth + 1)) := by
  induction depth with
  | zero => exact .exhaust _
  | succ depth ih =>
    refine .bind (.refl _) fun _ ↦ .ite ?_ (.refl _)
    exact .bind (.refl _) fun _ ↦ .bind (.refl _) fun _ ↦ .bind ih fun _ ↦ .refl _

theorem below_parameters (depth : Nat) : Below (parameters depth) (parameters (depth + 1)) :=
  .bind (.refl _) fun _ ↦
    .ite (.refl _) (.bind (.refl _) fun _ ↦ .bind (below_moreParameters depth) fun _ ↦ .refl _)

mutual

/-- With one unit more the reader comes to the same end, if it comes to one.  The bound is passed
on to all parts, so the statement is about all readers together. -/
theorem below_expression : ∀ depth level,
    Below (expression depth level) (expression (depth + 1) level)
  | 0, _ => .exhaust _
  | depth + 1, level => .bind (below_operand depth) fun left ↦ below_climb depth level left

theorem below_climb : ∀ depth level left,
    Below (climb depth level left) (climb (depth + 1) level left)
  | 0, _, _ => .exhaust _
  | depth + 1, level, left => by
    refine .bind (.refl _) fun t ↦ .ite ?_ (.refl _)
    split
    · exact .refl _
    · rename_i way _
      exact .bind (.refl _) fun _ ↦ .bind (below_continued depth way t left) fun longer ↦
        below_climb depth level longer

theorem below_continued : ∀ depth way t left,
    Below (continued depth way t left) (continued (depth + 1) way t left)
  | 0, _, _, _ => .exhaust _
  | depth + 1, .operation, t, left => by
    rw [continued, continued]
    split
    · exact .refl _
    · exact .bind (below_expression depth _) fun _ ↦ .refl _
  | depth + 1, .call, _, _ => .bind (below_expressions depth _) fun _ ↦ .refl _
  | depth + 1, .index, _, _ => .bind (below_expression depth _) fun _ ↦ .refl _

theorem below_operand : ∀ depth, Below (operand depth) (operand (depth + 1))
  | 0 => .exhaust _
  | depth + 1 => by
    refine .bind (.refl _) fun t ↦ ?_
    split
    · exact .refl _
    · exact .refl _
    · exact .refl _
    · exact .refl _
    · exact .refl _
    · split
      · exact .refl _
      · exact .bind (below_expression depth _) fun _ ↦ .refl _
    · split
      · exact .refl _
      · exact .bind (below_expression depth _) fun _ ↦ .refl _
    · exact .bind (below_expression depth _) fun _ ↦ .refl _
    · exact below_conditional depth t
    · exact .bind (.refl _) fun _ ↦ .bind (below_parameters depth) fun _ ↦ .bind (.refl _)
        fun brace ↦ .bind (below_block depth brace) fun _ ↦ .refl _
    · exact .bind (below_expressions depth _) fun _ ↦ .refl _
    · exact .bind (below_pairs depth) fun _ ↦ .refl _
    · exact .refl _

theorem below_conditional : ∀ depth t,
    Below (conditional depth t) (conditional (depth + 1) t)
  | 0, _ => .exhaust _
  | depth + 1, _ =>
    .bind (.refl _) fun _ ↦ .bind (below_expression depth _) fun _ ↦ .bind (.refl _) fun _ ↦
      .bind (.refl _) fun brace ↦ .bind (below_block depth brace) fun _ ↦ .bind (.refl _) fun _ ↦
        .ite
          (.bind (.refl _) fun _ ↦ .bind (.refl _) fun brace ↦
            .bind (below_block depth brace) fun _ ↦ .refl _)
          (.refl _)

theorem below_expressions : ∀ depth close,
    Below (expressions depth close) (expressions (depth + 1) close)
  | 0, _ => .exhaust _
  | depth + 1, close =>
    .bind (.refl _) fun _ ↦
      .ite (.refl _)
        (.bind (below_expression depth _) fun _ ↦
          .bind (below_moreExpressions depth close) fun _ ↦ .refl _)

theorem below_moreExpressions : ∀ depth close,
    Below (moreExpressions depth close) (moreExpressions (depth + 1) close)
  | 0, _ => .exhaust _
  | depth + 1, close =>
    .bind (.refl _) fun _ ↦
      .ite
        (.bind (.refl _) fun _ ↦ .bind (below_expression depth _) fun _ ↦
          .bind (below_moreExpressions depth close) fun _ ↦ .refl _)
        (.refl _)

theorem below_pairs : ∀ depth, Below (pairs depth) (pairs (depth + 1))
  | 0 => .exhaust _
  | depth + 1 =>
    .bind (.refl _) fun _ ↦
      .ite (.refl _)
        (.bind (below_expression depth _) fun _ ↦ .bind (.refl _) fun _ ↦
          .bind (below_expression depth _) fun _ ↦ .bind (.refl _) fun _ ↦
            .ite (.bind (below_pairs depth) fun _ ↦ .refl _)
              (.bind (.refl _) fun _ ↦ .bind (below_pairs depth) fun _ ↦ .refl _))

theorem below_statement : ∀ depth, Below (statement depth) (statement (depth + 1))
  | 0 => .exhaust _
  | depth + 1 => by
    refine .bind (.refl _) fun t ↦ ?_
    split
    · exact .bind (.refl _) fun _ ↦ .bind (.refl _) fun _ ↦ .bind (.refl _) fun _ ↦
        .bind (below_expression depth _) fun _ ↦ .refl _
    · exact .bind (.refl _) fun _ ↦ .bind (.refl _) fun _ ↦
        .ite (.refl _) (.bind (below_expression depth _) fun _ ↦ .refl _)
    · exact .bind (below_expression depth _) fun _ ↦ .refl _

/-- The bound can run out while a statement is read and caught; but to be caught is only for
failures, and running out is none. -/
theorem below_statements : ∀ depth inBlock,
    Below (statements depth inBlock) (statements (depth + 1) inBlock)
  | 0, _ => .exhaust _
  | depth + 1, inBlock =>
    .bind (.refl _) fun _ ↦
      .ite (.refl _)
        (.bind (below_attempt (below_statement depth)) fun _ ↦
          .bind (below_statements depth inBlock) fun _ ↦ .refl _)

theorem below_block : ∀ depth brace, Below (block depth brace) (block (depth + 1) brace)
  | 0, _ => .exhaust _
  | depth + 1, _ => .bind (below_statements depth true) fun _ ↦ .refl _

end

end Below

/-! ## Eight units for each token

The number of tokens that are left is a parameter, and it goes down by what a reader takes in any
case (`Moves`).  So the calls that come after a token have the eight units of that token to
themselves. -/

/-- The reader comes to an end wherever at most `n` tokens are left.  Nothing is said about what
the reader does where there are more tokens.  The bound counts the tokens that are left and not
those that the reader uses, because a reader that fails may use any number of them. -/
def EndsWithin {α : Type} (n : Nat) (read : Parser α) : Prop :=
  ∀ s : State, s.stream.pending.length ≤ n → read s ≠ .exhausted

namespace EndsWithin

variable {α β : Type} {m n : Nat}

theorem pure (value : α) : EndsWithin n (pure value : Parser α) := fun _ _ ↦ by simp

theorem fail (e : ParseError) : EndsWithin n (fail e : Parser α) := fun _ _ ↦ by simp [Parser.fail]

theorem ite {c : Prop} [Decidable c] {read other : Parser α} (h : c → EndsWithin n read)
    (h' : ¬ c → EndsWithin n other) : EndsWithin n (if c then read else other) := by
  split
  · exact h ‹_›
  · exact h' ‹_›

/-- What comes second has as many tokens less as the first one takes in any case. -/
theorem bind {read : Parser α} {next : α → Parser β} (h : EndsWithin n read) (hmoves : Moves m read)
    (hnext : ∀ v, EndsWithin (n - m) (next v)) : EndsWithin n (read >>= next) := by
  intro s hs
  have hs' := hmoves s
  rw [Action.bind_apply]
  cases hread : read s with
  | done v t =>
    rw [hread] at hs'
    have hle := hs'.length_pending_le
    exact hnext v t (by omega)
  | stop e t => simp
  | exhausted => exact absurd hread (h s hs)

/-- With no token left, the next one is the end of the input. -/
theorem kind_head {s : State} (hs : s.stream.pending.length ≤ n) :
    n = 0 → s.stream.head.kind = .eof := by
  rintro rfl
  exact Stream.head_of_pending_nil (List.eq_nil_of_length_eq_zero (Nat.le_zero.1 hs))

theorem peek_bind {next : Token → Parser β}
    (h : ∀ t, (n = 0 → t.kind = .eof) → EndsWithin n (next t)) : EndsWithin n (peek >>= next) :=
  fun s hs ↦ h s.stream.head (kind_head hs) s hs

theorem take_bind {next : Token → Parser β}
    (h : ∀ t, (n = 0 → t.kind = .eof) → EndsWithin (n - 1) (next t)) :
    EndsWithin n (take >>= next) := by
  intro s hs
  refine h s.stream.head (kind_head hs) _ ?_
  simp only [Stream.pending_tail, List.length_tail]
  omega

/-- After a token that was expected there was one token less. -/
theorem expect_bind {expected : TokenType} {next : Token → Parser β} (he : expected ≠ .eof)
    (h : ∀ t, 0 < n → EndsWithin (n - 1) (next t)) : EndsWithin n (expect expected >>= next) := by
  rw [Parser.expect, bind_assoc]
  refine peek_bind fun t ht ↦ ?_
  by_cases htype : t.type = expected
  · have hn : 0 < n := by
      refine Nat.pos_of_ne_zero fun h0 ↦ he ?_
      rw [← htype, Token.type, ht h0]
      rfl
    rw [if_pos htype]
    exact take_bind fun t _ ↦ h t hn
  · rw [if_neg htype]
    intro s _
    simp [Action.bind_apply, Parser.fail]

theorem take : EndsWithin n take := fun _ _ ↦ by simp [Parser.take]

theorem expect (expected : TokenType) : EndsWithin n (expect expected) :=
  peek_bind fun _ _ ↦ ite (fun _ ↦ take) fun _ ↦ fail _

theorem skipIf_bind {wanted : TokenType} {next : Unit → Parser β} (h : EndsWithin n (next ())) :
    EndsWithin n (skipIf wanted >>= next) := by
  rw [skipIf, bind_assoc]
  refine peek_bind fun t _ ↦ ?_
  by_cases htype : t.type = wanted
  · rw [if_pos htype, bind_assoc]
    refine take_bind fun _ _ s hs ↦ ?_
    exact h s (by omega)
  · rw [if_neg htype]
    exact fun s hs ↦ h s hs

/-- A reader that is caught ends as the reader itself does: giving up is an end too. -/
theorem attempt {read : Parser α} (h : EndsWithin n read) : EndsWithin n (attempt read) := by
  intro s hs
  rw [Parser.attempt]
  cases hread : read s with
  | done v t => simp
  | stop e t => simp
  | exhausted => exact absurd hread (h s hs)

end EndsWithin

theorem endsWithin_moreParameters : ∀ depth n, 8 * n + 1 ≤ depth →
    EndsWithin n (moreParameters depth)
  | 0, _, h => absurd h (by omega)
  | depth + 1, n, h => by
    refine .peek_bind fun t ht ↦ .ite (fun hcomma ↦ ?_) fun _ ↦ ?_
    · have hn : n ≠ 0 := fun h0 ↦ absurd (ht h0) (by simp [hcomma])
      refine .take_bind fun _ _ ↦ ?_
      rw [identifier, bind_assoc]
      refine .expect_bind (by simp) fun _ _ ↦ ?_
      refine (endsWithin_moreParameters depth _ (by omega)).bind (moves_moreParameters depth) ?_
      exact fun _ ↦ .pure _
    · exact .expect_bind (by simp) fun _ _ ↦ .pure _

theorem endsWithin_parameters {depth n : Nat} (h : 8 * n + 1 ≤ depth) :
    EndsWithin n (parameters depth) := by
  refine .peek_bind fun t _ ↦ .ite (fun _ ↦ ?_) fun _ ↦ ?_
  · exact .take_bind fun _ _ ↦ .pure _
  · rw [identifier, bind_assoc]
    refine .expect_bind (by simp) fun _ _ ↦ ?_
    refine (endsWithin_moreParameters depth _ (by omega)).bind (moves_moreParameters depth) ?_
    exact fun _ ↦ .pure _

mutual

/-- An operand first, for which the same tokens are left, and then the loop. -/
theorem endsWithin_expression : ∀ depth n level, 8 * n + 2 ≤ depth →
    EndsWithin n (expression depth level)
  | 0, _, _, h => absurd h (by omega)
  | depth + 1, n, level, h => by
    refine (endsWithin_operand depth n (by omega)).bind (moves_operand depth) fun left ↦ ?_
    exact endsWithin_climb depth (n - 1) level left (by omega)

/-- Each round of the loop takes the token of a continuation, which pays for eight units. -/
theorem endsWithin_climb : ∀ depth n level left, 8 * n + 1 ≤ depth →
    EndsWithin n (climb depth level left)
  | 0, _, _, _, h => absurd h (by omega)
  | depth + 1, n, level, left, h => by
    refine .peek_bind fun t ht ↦ .ite (fun hlevel ↦ ?_) fun _ ↦ .pure left
    -- a token that binds is not the end of the input, so the continuation has one token less
    have hn : n ≠ 0 := by
      intro h0
      rw [ht h0] at hlevel
      exact absurd hlevel (Nat.not_lt_zero _)
    split
    · exact .pure left
    · rename_i way hway
      refine .take_bind fun _ _ ↦ ?_
      refine (endsWithin_continued depth (n - 1) way t left (by omega)).bind
        (moves_continued depth way t left hway) fun longer ↦ ?_
      exact endsWithin_climb depth (n - 1) level longer (by omega)

theorem endsWithin_continued : ∀ depth n way (t : Token) left, 8 * n + 4 ≤ depth →
    EndsWithin n (continued depth way t left)
  | 0, _, _, _, _, h => absurd h (by omega)
  | depth + 1, n, .operation, t, left, h => by
    rw [continued]
    split
    · intro s _
      simp
    · refine (endsWithin_expression depth n _ (by omega)).bind (moves_expression depth _) ?_
      exact fun _ ↦ .pure _
  | depth + 1, n, .call, _, _, h => by
    refine (endsWithin_expressions depth n _ (by omega)).bind (moves_expressions depth _) ?_
    exact fun _ ↦ .pure _
  | depth + 1, n, .index, _, _, h => by
    refine (endsWithin_expression depth n _ (by omega)).bind (moves_expression depth _) fun _ ↦ ?_
    exact .expect_bind (by simp) fun _ _ ↦ .pure _

/-- An operand takes a token before it calls anything, so one unit on top is enough. -/
theorem endsWithin_operand : ∀ depth n, 8 * n + 1 ≤ depth → EndsWithin n (operand depth)
  | 0, _, h => absurd h (by omega)
  | depth + 1, n, h => by
    refine .take_bind fun t ht ↦ ?_
    have hmore : t.kind ≠ .eof → n ≠ 0 := fun hne h0 ↦ hne (ht h0)
    split
    · exact .pure _
    · split
      · exact .pure _
      · exact .fail _
    · exact .pure _
    · exact .pure _
    · exact .pure _
    · rename_i hkind
      have hn : n ≠ 0 := hmore (by simp [hkind])
      rw [hkind]
      refine (endsWithin_expression depth (n - 1) _ (by omega)).bind (moves_expression depth _) ?_
      exact fun _ ↦ .pure _
    · rename_i hkind
      have hn : n ≠ 0 := hmore (by simp [hkind])
      rw [hkind]
      refine (endsWithin_expression depth (n - 1) _ (by omega)).bind (moves_expression depth _) ?_
      exact fun _ ↦ .pure _
    · rename_i hkind
      have hn : n ≠ 0 := hmore (by simp [hkind])
      refine (endsWithin_expression depth (n - 1) _ (by omega)).bind (moves_expression depth _)
        fun _ ↦ ?_
      exact .expect_bind (by simp) fun _ _ ↦ .pure _
    · rename_i hkind
      have hn : n ≠ 0 := hmore (by simp [hkind])
      exact endsWithin_conditional depth (n - 1) t (by omega)
    · rename_i hkind
      have hn : n ≠ 0 := hmore (by simp [hkind])
      refine .expect_bind (by simp) fun _ _ ↦ ?_
      refine (endsWithin_parameters (by omega)).bind (moves_parameters depth) fun _ ↦ ?_
      refine .expect_bind (by simp) fun brace _ ↦ ?_
      refine (endsWithin_block depth _ brace (by omega)).bind (moves_block depth brace) fun _ ↦ ?_
      exact .pure _
    · rename_i hkind
      have hn : n ≠ 0 := hmore (by simp [hkind])
      refine (endsWithin_expressions depth (n - 1) _ (by omega)).bind (moves_expressions depth _) ?_
      exact fun _ ↦ .pure _
    · rename_i hkind
      have hn : n ≠ 0 := hmore (by simp [hkind])
      refine (endsWithin_pairs depth (n - 1) (by omega)).bind (moves_pairs depth) fun _ ↦ ?_
      exact .pure _
    · exact .fail _

theorem endsWithin_conditional : ∀ depth n t, 8 * n + 1 ≤ depth →
    EndsWithin n (conditional depth t)
  | 0, _, _, h => absurd h (by omega)
  | depth + 1, n, t, h => by
    refine .expect_bind (by simp) fun _ hn ↦ ?_
    refine (endsWithin_expression depth (n - 1) _ (by omega)).bind (moves_expression depth _)
      fun _ ↦ ?_
    refine .expect_bind (by simp) fun _ _ ↦ .expect_bind (by simp) fun brace _ ↦ ?_
    refine (endsWithin_block depth _ brace (by omega)).bind (moves_block depth brace) fun _ ↦ ?_
    refine .peek_bind fun _ _ ↦ .ite (fun _ ↦ ?_) fun _ ↦ .pure _
    refine .take_bind fun _ _ ↦ .expect_bind (by simp) fun brace _ ↦ ?_
    refine (endsWithin_block depth _ brace (by omega)).bind (moves_block depth brace) fun _ ↦ ?_
    exact .pure _

theorem endsWithin_expressions : ∀ depth n close, 8 * n + 3 ≤ depth →
    EndsWithin n (expressions depth close)
  | 0, _, _, h => absurd h (by omega)
  | depth + 1, n, close, h => by
    refine .peek_bind fun t _ ↦ .ite (fun _ ↦ ?_) fun _ ↦ ?_
    · exact .take_bind fun _ _ ↦ .pure _
    · refine (endsWithin_expression depth n _ (by omega)).bind (moves_expression depth _) fun _ ↦ ?_
      refine (endsWithin_moreExpressions depth (n - 1) close (by omega)).bind
        (moves_moreExpressions depth close) fun _ ↦ ?_
      exact .pure _

theorem endsWithin_moreExpressions : ∀ depth n close, 8 * n + 1 ≤ depth →
    EndsWithin n (moreExpressions depth close)
  | 0, _, _, h => absurd h (by omega)
  | depth + 1, n, close, h => by
    refine .peek_bind fun t ht ↦ .ite (fun hcomma ↦ ?_) fun _ ↦ ?_
    · have hn : n ≠ 0 := fun h0 ↦ absurd (ht h0) (by simp [hcomma])
      refine .take_bind fun _ _ ↦ ?_
      refine (endsWithin_expression depth (n - 1) _ (by omega)).bind (moves_expression depth _)
        fun _ ↦ ?_
      refine (endsWithin_moreExpressions depth _ close (by omega)).bind
        (moves_moreExpressions depth close) fun _ ↦ ?_
      exact .pure _
    · exact (EndsWithin.expect close).bind (Moves.expect close) fun _ ↦ .pure _

theorem endsWithin_pairs : ∀ depth n, 8 * n + 3 ≤ depth → EndsWithin n (pairs depth)
  | 0, _, h => absurd h (by omega)
  | depth + 1, n, h => by
    refine .peek_bind fun t _ ↦ .ite (fun _ ↦ ?_) fun _ ↦ ?_
    · exact .take_bind fun _ _ ↦ .pure _
    · refine (endsWithin_expression depth n _ (by omega)).bind (moves_expression depth _) fun _ ↦ ?_
      refine .expect_bind (by simp) fun _ hn ↦ ?_
      refine (endsWithin_expression depth _ _ (by omega)).bind (moves_expression depth _) fun _ ↦ ?_
      refine .peek_bind fun _ _ ↦ .ite (fun _ ↦ ?_) fun _ ↦ .expect_bind (by simp) fun _ _ ↦ ?_
      · exact (endsWithin_pairs depth _ (by omega)).bind (moves_pairs depth) fun _ ↦ .pure _
      · exact (endsWithin_pairs depth _ (by omega)).bind (moves_pairs depth) fun _ ↦ .pure _

theorem endsWithin_statement : ∀ depth n, 8 * n + 3 ≤ depth → EndsWithin n (statement depth)
  | 0, _, h => absurd h (by omega)
  | depth + 1, n, h => by
    refine .peek_bind fun t _ ↦ ?_
    split
    · refine .take_bind fun _ _ ↦ ?_
      rw [identifier, bind_assoc]
      refine .expect_bind (by simp) fun _ _ ↦ .expect_bind (by simp) fun _ _ ↦ ?_
      refine (endsWithin_expression depth _ _ (by omega)).bind (moves_expression depth _) fun _ ↦ ?_
      exact .skipIf_bind (.pure _)
    · refine .take_bind fun _ _ ↦ .peek_bind fun _ _ ↦ .ite (fun _ ↦ ?_) fun _ ↦ ?_
      · exact .skipIf_bind (.pure _)
      · refine (endsWithin_expression depth _ _ (by omega)).bind (moves_expression depth _)
          fun _ ↦ ?_
        exact .skipIf_bind (.pure _)
    · refine (endsWithin_expression depth n _ (by omega)).bind (moves_expression depth _) fun _ ↦ ?_
      exact .skipIf_bind (.pure _)

/-- A statement moves on by a token at least, also when it fails.  Without this the sequence could
go round without an end. -/
theorem endsWithin_statements : ∀ depth n inBlock, 8 * n + 4 ≤ depth →
    EndsWithin n (statements depth inBlock)
  | 0, _, _, h => absurd h (by omega)
  | depth + 1, n, inBlock, h => by
    refine .peek_bind fun t ht ↦ .ite (fun _ ↦ .pure _) fun hmore ↦ ?_
    have hn : n ≠ 0 := fun h0 ↦ hmore (.inl (ht h0))
    refine (endsWithin_statement depth n (by omega)).attempt.bind (moves_statement depth).attempt
      fun _ ↦ ?_
    refine (endsWithin_statements depth (n - 1) inBlock (by omega)).bind
      (moves_statements depth inBlock) fun _ ↦ ?_
    exact .pure _

theorem endsWithin_block : ∀ depth n brace, 8 * n + 5 ≤ depth → EndsWithin n (block depth brace)
  | 0, _, _, h => absurd h (by omega)
  | depth + 1, n, brace, h => by
    refine (endsWithin_statements depth n true (by omega)).bind (moves_statements depth true)
      fun _ ↦ ?_
    exact .take_bind fun _ _ ↦ .ite (fun _ ↦ .fail _) fun _ ↦ .pure _

end

/-! ## The end of a sequence of statements -/

/-- A sequence of statements never gives up, and it ends in front of the end of the input or, in a
block, of a closing brace.  Failing statements are the only failures that are caught, and they are
caught here.  So a sequence of statements is always done, and then it has arrived at an end. -/
theorem statements_ends (depth : Nat) (inBlock : Bool) (s : State) :
    (statements depth inBlock s).Post
      (fun _ t ↦ t.stream.head.kind = .eof ∨
        (inBlock = true ∧ t.stream.head.kind = .symbol .rightBrace))
      (fun _ _ ↦ False) True := by
  induction depth generalizing s with
  | zero => trivial
  | succ depth ih =>
    rw [statements, Action.bind_apply]
    simp only [peek, Action.look_apply]
    split
    · assumption
    · have hattempt :
          (attempt (statement depth) s).Post (fun _ _ ↦ True) (fun _ _ ↦ False) True := by
        rw [attempt]
        split <;> trivial
      exact hattempt.bind fun first t _ ↦ (ih t).bind fun rest u hu ↦ hu

end Parser

/-! ## Whole programs -/

/-- With depth enough, reading a stream comes to an end in front of the end of the input. -/
theorem Stream.parse_ends (s : Stream) {depth : Nat} (h : s.depth ≤ depth) : ∃ statements t,
    Parser.statements depth false ⟨s, []⟩ = .done statements t ∧ t.stream.head.kind = .eof ∧
      s.parse = ⟨⟨statements⟩, t.errors⟩ := by
  have hexhausted : Parser.statements s.depth false ⟨s, []⟩ ≠ .exhausted :=
    Parser.endsWithin_statements s.depth s.pending.length false (by rw [Stream.depth]; omega) _
      (Nat.le_refl _)
  have hgrow : ∀ n, (Parser.statements n false).Below (Parser.statements (n + 1) false) :=
    fun n ↦ Parser.below_statements n false
  have hsame := Action.Below.of_le hgrow h ⟨s, []⟩ hexhausted
  have hends := Parser.statements_ends s.depth false ⟨s, []⟩
  rw [parse]
  cases hcases : Parser.statements s.depth false ⟨s, []⟩ with
  | done statements t =>
    rw [hcases] at hsame hends
    have heof : t.stream.head.kind = .eof := by simpa [Outcome.Post] using hends
    exact ⟨statements, t, hsame, heof, rfl⟩
  | stop e t =>
    rw [hcases] at hends
    exact hends.elim
  | exhausted => exact absurd hcases hexhausted

/-- What the reader of statements settles on is what is read of the stream. -/
theorem Stream.parse_of_settles {s : Stream} {statements : List Stmt} {t : Parser.State}
    (h : Settles (fun depth ↦ Parser.statements depth false) ⟨s, []⟩ (.done statements t)) :
    s.parse = ⟨⟨statements⟩, t.errors⟩ := by
  have hends : Parser.statements s.depth false ⟨s, []⟩ ≠ .exhausted :=
    Parser.endsWithin_statements s.depth s.pending.length false (by rw [depth]; omega) _
      (Nat.le_refl _)
  have heq := h.eq_of_ne_exhausted (fun depth ↦ Parser.below_statements depth false) hends
  rw [parse, heq]

end MonkeyLang
