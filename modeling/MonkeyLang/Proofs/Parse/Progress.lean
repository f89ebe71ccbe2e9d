import MonkeyLang.Parse
import MonkeyLang.Proofs.Outcome

/-!
# Readers only go forward

Whatever a reader does, the tokens it leaves are a later part of the stream it started with, and
the errors recorded before stay where they are.  A reader that gives up has recorded an error.

`Parser.Moves least read` says all of this, together with a number of tokens that `read` takes in
any case.  The readers of expressions and statements take at least one, which is why sequences of
statements come to an end.

## One predicate for three facts

That tokens are only taken, that errors are only added, and that there is an error for each
failure: each of these could be a predicate of its own, with its own pass over all readers.  They
are proved together, since the steps of the proofs are the same and the third needs the second, and
everything later that argues about a run of a reader starts from `Moves`.  A stronger statement
about the errors themselves is `MonkeyLang.Proofs.Parse.Order`, and about the tokens between two
states `MonkeyLang.Proofs.Parse.Soundness`.

Nothing is said about a reader that runs out of depth, since with the depth that it gets in the end
it never does.

The number of tokens counts ends of the input as well.  They are delivered without end, so that a
reader that has come to the end may still take a token, and then no token is left afterwards, as
before.  This is why the length of what is left is bounded by a difference that stops at zero.
-/

set_option autoImplicit false

namespace MonkeyLang

/-! ## Later parts of a stream -/

namespace Stream

/-- The stream after its next `n` tokens. -/
def skip (s : Stream) : Nat → Stream
  | 0 => s
  | n + 1 => s.tail.skip n

@[simp]
theorem pending_tail (s : Stream) : s.tail.pending = s.pending.tail := by
  rw [tail]
  split <;> simp [*]

theorem pending_skip (s : Stream) (n : Nat) : (s.skip n).pending = s.pending.drop n := by
  induction n generalizing s with
  | zero => rfl
  | succ n ih => rw [skip, ih, pending_tail, List.drop_tail]

/-- Taking tokens twice is taking as many as both times together. -/
theorem skip_skip (s : Stream) (m n : Nat) : (s.skip m).skip n = s.skip (m + n) := by
  induction m generalizing s with
  | zero => rw [skip, Nat.zero_add]
  | succ m ih => rw [skip, ih, Nat.succ_add, skip]

/-- The end of the input is seen exactly when no token is left. -/
theorem head_of_pending_nil {s : Stream} (h : s.pending = []) : s.head.kind = .eof := by
  rw [head, h]
  rfl

end Stream

namespace Parser

/-- The state `t` can be reached from `s` by taking tokens, at least `least` of them, and recording
errors.  Nothing else can happen: no token comes back, and no error goes away. -/
structure State.Leads (least : Nat) (s t : State) : Prop where
  /-- The tokens that are left are a later part of the stream. -/
  skipped : ∃ n, least ≤ n ∧ t.stream = s.stream.skip n
  /-- Errors are only added, at the end. -/
  errors : s.errors <+: t.errors

namespace State.Leads

theorem refl (s : State) : s.Leads 0 s := ⟨⟨0, Nat.le_refl 0, rfl⟩, List.prefix_refl _⟩

theorem mono {m n : Nat} {s t : State} (h : s.Leads n t) (hle : m ≤ n) : s.Leads m t := by
  obtain ⟨⟨k, hk, hs⟩, he⟩ := h
  exact ⟨⟨k, by omega, hs⟩, he⟩

/-- One step after another takes the tokens of both. -/
theorem trans {m n : Nat} {s t u : State} (hst : s.Leads m t) (htu : t.Leads n u) :
    s.Leads (m + n) u := by
  obtain ⟨⟨i, hi, hs⟩, he⟩ := hst
  obtain ⟨⟨j, hj, ht⟩, he'⟩ := htu
  refine ⟨⟨i + j, by omega, ?_⟩, he.trans he'⟩
  rw [ht, hs, Stream.skip_skip]

/-- The tokens that were taken are gone. -/
theorem length_pending_le {n : Nat} {s t : State} (h : s.Leads n t) :
    t.stream.pending.length ≤ s.stream.pending.length - n := by
  obtain ⟨⟨k, hk, hs⟩, -⟩ := h
  rw [hs, Stream.pending_skip, List.length_drop]
  omega

end State.Leads

/-! ## What expecting a token does -/

/-- A token that is expected and there is taken. -/
theorem expect_of_eq {expected : TokenType} {s : State} (h : s.stream.head.type = expected) :
    expect expected s = .done s.stream.head { s with stream := s.stream.tail } := by
  rw [expect, Action.bind_apply]
  simp only [peek, Action.look_apply, if_pos h]
  rfl

/-- A token that is not expected stays, and is complained about. -/
theorem expect_of_ne {expected : TokenType} {s : State} (h : s.stream.head.type ≠ expected) :
    expect expected s = .stop () { s with
      errors := s.errors ++
        [.unexpectedToken expected s.stream.head.type s.stream.head.position] } := by
  rw [expect, Action.bind_apply]
  simp only [peek, Action.look_apply, if_neg h]
  rfl

/-! ## Moving forward -/

/-- A reader takes tokens from the front, at least `least` of them, and keeps the errors it found;
if it gives up, it has recorded one.  What a sequence of two readers takes in any case is what the
first one takes, for the second one may not be reached. -/
def Moves {α : Type} (least : Nat) (read : Parser α) : Prop :=
  ∀ s, (read s).Post (fun _ t ↦ s.Leads least t)
    (fun _ t ↦ s.Leads least t ∧ s.errors.length < t.errors.length) True

namespace Moves

variable {α β : Type} {m n : Nat}

theorem mono {read : Parser α} (h : Moves n read) (hle : m ≤ n) : Moves m read :=
  fun s ↦ (h s).imp (fun _ _ ht ↦ ht.mono hle) fun _ _ ht ↦ ⟨ht.1.mono hle, ht.2⟩

theorem relax {read : Parser α} (h : Moves n read) : Moves 0 read := h.mono (Nat.zero_le n)

theorem pure (value : α) : Moves 0 (pure value : Parser α) := State.Leads.refl

theorem exhaust : Moves n (Action.exhaust : Parser α) := fun _ ↦ trivial

theorem take : Moves 1 take := fun s ↦ ⟨⟨1, Nat.le_refl 1, rfl⟩, List.prefix_refl s.errors⟩

theorem fail (e : ParseError) : Moves 0 (fail e : Parser α) :=
  fun s ↦ ⟨⟨⟨0, Nat.le_refl 0, rfl⟩, List.prefix_append s.errors [e]⟩, by simp⟩

theorem bind {read : Parser α} {next : α → Parser β} (h : Moves m read)
    (hnext : ∀ v, Moves n (next v)) : Moves m (read >>= next) := by
  intro s
  refine (h s).bind fun v t hst ↦ (hnext v t).imp (fun _ u htu ↦ ?_) fun _ u htu ↦ ?_
  · exact (hst.trans htu).mono (Nat.le_add_right m n)
  · exact ⟨(hst.trans htu.1).mono (Nat.le_add_right m n),
      Nat.lt_of_le_of_lt hst.errors.length_le htu.2⟩

theorem peek_bind {next : Token → Parser β} (h : ∀ t, Moves n (next t)) :
    Moves n (peek >>= next) :=
  fun s ↦ h s.stream.head s

theorem ite {c : Prop} [Decidable c] {read other : Parser α} (h : Moves n read)
    (h' : Moves n other) : Moves n (if c then read else other) := by
  split
  · exact h
  · exact h'

theorem expect (expected : TokenType) : Moves 0 (expect expected) :=
  peek_bind fun _ ↦ ite take.relax (fail _)

theorem skipIf (wanted : TokenType) : Moves 0 (skipIf wanted) :=
  peek_bind fun _ ↦ ite (take.relax.bind fun _ ↦ pure ()) (pure ())

theorem identifier : Moves 0 identifier := (expect _).bind fun _ ↦ pure _

/-- A failure that is caught has taken tokens all the same. -/
theorem attempt {read : Parser α} (h : Moves n read) : Moves n (attempt read) := by
  intro s
  have hs := h s
  rw [Parser.attempt]
  cases hread : read s with
  | done v t =>
    rw [hread] at hs
    exact hs
  | stop e t =>
    rw [hread] at hs
    exact hs.1
  | exhausted => trivial

end Moves

/-! ## All readers move forward

The readers of expressions and statements take a token because an operand does, whatever it is.  A
block or a list may consist of its closing bracket, which is taken too, but nothing depends on
that. -/

/-- The table of operators and the table of continuations agree. -/
theorem ofKind?_of_operation {kind : TokenKind} (h : continuation? kind = some .operation) :
    ∃ op, Operator.ofKind? kind = some op := by
  rw [continuation?.eq_def] at h
  split at h <;> first | exact ⟨_, rfl⟩ | exact absurd h (by simp)

theorem moves_moreParameters : ∀ depth, Moves 0 (moreParameters depth)
  | 0 => .exhaust
  | depth + 1 => .peek_bind fun _ ↦
    .ite
      (Moves.take.relax.bind fun _ ↦ Moves.identifier.bind fun _ ↦
        (moves_moreParameters depth).bind fun _ ↦ .pure _)
      ((Moves.expect _).bind fun _ ↦ .pure _)

theorem moves_parameters (depth : Nat) : Moves 0 (parameters depth) :=
  .peek_bind fun _ ↦
    .ite (Moves.take.relax.bind fun _ ↦ .pure _)
      (Moves.identifier.bind fun _ ↦ (moves_moreParameters depth).bind fun _ ↦ .pure _)

mutual

/-- An expression starts with an operand, and this takes a token in any case, also if the token is
none that an operand starts with. -/
theorem moves_expression : ∀ depth level, Moves 1 (expression depth level)
  | 0, _ => .exhaust
  | depth + 1, level => (moves_operand depth).bind fun left ↦ moves_climb depth level left

theorem moves_climb : ∀ depth level left, Moves 0 (climb depth level left)
  | 0, _, _ => .exhaust
  | depth + 1, level, left => by
    refine .peek_bind fun t ↦ .ite ?_ (.pure left)
    split
    · exact .pure left
    · rename_i way hway
      exact Moves.take.relax.bind fun _ ↦
        (moves_continued depth way t left hway).bind fun longer ↦ moves_climb depth level longer

/-- Only a token that is an operator continues an expression as one. -/
theorem moves_continued : ∀ depth way (t : Token) left, continuation? t.kind = some way →
    Moves 0 (continued depth way t left)
  | 0, _, _, _, _ => .exhaust
  | depth + 1, .operation, t, left, hway => by
    obtain ⟨op, hop⟩ := ofKind?_of_operation hway
    rw [continued, hop]
    exact (moves_expression depth _).relax.bind fun _ ↦ .pure _
  | depth + 1, .call, _, _, _ => (moves_expressions depth _).bind fun _ ↦ .pure _
  | depth + 1, .index, _, _, _ =>
    (moves_expression depth _).relax.bind fun _ ↦
      (Moves.expect _).bind fun _ ↦ .pure _

theorem moves_operand : ∀ depth, Moves 1 (operand depth)
  | 0 => .exhaust
  | depth + 1 => by
    refine Moves.take.bind (n := 0) fun t ↦ ?_
    split
    · exact .pure _
    · split
      · exact .pure _
      · exact .fail _
    · exact .pure _
    · exact .pure _
    · exact .pure _
    · rename_i h
      rw [h]
      exact (moves_expression depth _).relax.bind fun _ ↦ .pure _
    · rename_i h
      rw [h]
      exact (moves_expression depth _).relax.bind fun _ ↦ .pure _
    · exact (moves_expression depth _).relax.bind fun _ ↦
        (Moves.expect _).bind fun _ ↦ .pure _
    · exact moves_conditional depth t
    · exact (Moves.expect _).bind fun _ ↦ (moves_parameters depth).bind fun _ ↦
        (Moves.expect _).bind fun brace ↦ (moves_block depth brace).bind fun _ ↦ .pure _
    · exact (moves_expressions depth _).bind fun _ ↦ .pure _
    · exact (moves_pairs depth).bind fun _ ↦ .pure _
    · exact .fail _

theorem moves_conditional : ∀ depth t, Moves 0 (conditional depth t)
  | 0, _ => .exhaust
  | depth + 1, _ =>
    (Moves.expect _).bind fun _ ↦ (moves_expression depth _).relax.bind fun _ ↦
      (Moves.expect _).bind fun _ ↦ (Moves.expect _).bind fun brace ↦
        (moves_block depth brace).bind fun _ ↦ .peek_bind fun _ ↦
          .ite
            (Moves.take.relax.bind fun _ ↦ (Moves.expect _).bind fun brace ↦
              (moves_block depth brace).bind fun _ ↦ .pure _)
            (.pure _)

theorem moves_expressions : ∀ depth close, Moves 0 (expressions depth close)
  | 0, _ => .exhaust
  | depth + 1, close => .peek_bind fun _ ↦
    .ite (Moves.take.relax.bind fun _ ↦ .pure _)
      ((moves_expression depth _).relax.bind fun _ ↦
        (moves_moreExpressions depth close).bind fun _ ↦ .pure _)

theorem moves_moreExpressions : ∀ depth close, Moves 0 (moreExpressions depth close)
  | 0, _ => .exhaust
  | depth + 1, close => .peek_bind fun _ ↦
    .ite
      (Moves.take.relax.bind fun _ ↦
        (moves_expression depth _).relax.bind fun _ ↦
          (moves_moreExpressions depth close).bind fun _ ↦ .pure _)
      ((Moves.expect _).bind fun _ ↦ .pure _)

theorem moves_pairs : ∀ depth, Moves 0 (pairs depth)
  | 0 => .exhaust
  | depth + 1 => .peek_bind fun _ ↦
    .ite (Moves.take.relax.bind fun _ ↦ .pure _)
      ((moves_expression depth _).relax.bind fun _ ↦
        (Moves.expect _).bind fun _ ↦
          (moves_expression depth _).relax.bind fun _ ↦ .peek_bind fun _ ↦
            .ite ((moves_pairs depth).bind fun _ ↦ .pure _)
              ((Moves.expect _).bind fun _ ↦ (moves_pairs depth).bind fun _ ↦ .pure _))

theorem moves_statement : ∀ depth, Moves 1 (statement depth)
  | 0 => .exhaust
  | depth + 1 => by
    refine .peek_bind fun t ↦ ?_
    split
    · exact Moves.take.bind fun _ ↦ Moves.identifier.bind fun _ ↦ (Moves.expect _).bind fun _ ↦
        (moves_expression depth _).bind fun _ ↦ (Moves.skipIf _).bind fun _ ↦ .pure _
    · refine Moves.take.bind (n := 0) fun _ ↦ .peek_bind fun _ ↦ .ite ?_ ?_
      · exact (Moves.skipIf _).bind fun _ ↦ .pure _
      · exact (moves_expression depth _).relax.bind fun _ ↦
          (Moves.skipIf _).bind fun _ ↦ .pure _
    · exact (moves_expression depth _).bind fun _ ↦ (Moves.skipIf _).bind fun _ ↦ .pure _

/-- None at all, when the end is in front already. -/
theorem moves_statements : ∀ depth inBlock, Moves 0 (statements depth inBlock)
  | 0, _ => .exhaust
  | depth + 1, inBlock => .peek_bind fun _ ↦
    .ite (.pure _)
      ((moves_statement depth).attempt.relax.bind fun _ ↦
        (moves_statements depth inBlock).bind fun _ ↦ .pure _)

theorem moves_block : ∀ depth brace, Moves 0 (block depth brace)
  | 0, _ => .exhaust
  | depth + 1, _ =>
    (moves_statements depth true).bind fun _ ↦ Moves.take.relax.bind fun _ ↦
      .ite (.fail _) (.pure _)

end

end Parser

end MonkeyLang
