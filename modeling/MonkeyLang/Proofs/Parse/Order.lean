import MonkeyLang.Proofs.Parse.Depth
import MonkeyLang.Proofs.Parse.Tier
import MonkeyLang.Proofs.Token.Order

/-!
# Errors come in the order of their tokens

An error is about one token (`ParseError.Concerns`): it names the place and the type of that token,
and it has a reason to complain about it.  `errors_in_order` says that the errors of a text follow
the order of their tokens, with at most two errors for one token, and that once the end of the
input was met with, no error is about anything else.

## Two errors for one token

Two errors about one token are possible because a statement that fails leaves the token it stumbled
over to the next statement.  A token is complained about either while it is the next one, where
another was expected, or after it was taken, where an expression or a block could not go on with
it.  Neither happens twice: nothing is expected in front of the token that a statement stumbled
over before that token is taken.  So every error has a slot of its own, `2 * i` or `2 * i + 1` for
the token of number `i`, and the slots increase (`Stream.Accounts`).

A reader keeps this up from one `Parser.Stage` to another: it matters whether the next token was
complained about already (`blamed`), whether it was not (`fresh`), and whether the last token can
still be complained about because it was only just taken (`took`).

## Why slots

Order and number of the errors are two statements, and an induction over readers for each of them
would need the same stages.  Slots say both at once, as a list of numbers that increases: errors of
a later token come later, and one token has two slots.  They also remember which token an error is
about, by its number and not by its place.  Places come in at the end, when the tokens of a text
are known to be in order.

## The end of the input

It is delivered as often as somebody asks, each time one column further to the right.  So the
errors about it are not all at one place, and each is about an end of the input of its own.
-/

set_option autoImplicit false

namespace MonkeyLang

open Grammar

/-! ## What an error is about -/

/-- The type of the token that an error is about. -/
def ParseError.found : ParseError → TokenType
  | unexpectedToken _ found _ | noExpression found _ => found
  | invalidInteger _ _ => .int
  | illegalToken _ _ => .illegal
  | unterminatedString _ => .unterminated

/-- Why an error is raised about a token: another one was expected, no expression starts with a
token of this type and it is not defective, or it is defective in the way that the error says.  It
says something true about the token, and is no list of what could stand there instead. -/
def ParseError.Reason (t : Token) : ParseError → Prop
  | unexpectedToken expected found _ => expected ≠ found
  | noExpression found _ =>
    (∀ kind : TokenKind, kind.type = found → startsPhrase kind = false) ∧
      found ≠ .illegal ∧ found ≠ .unterminated
  | invalidInteger digits _ => t.kind = .int digits
  | illegalToken c _ => t.kind = .illegal c
  | unterminatedString _ => ∃ text, t.kind = .unterminated text

/-- An error is about a token: it stands at its place, names its type, and has a reason.  A reason
is asked for so that an error cannot be about any token that happens to stand at its place. -/
structure ParseError.Concerns (e : ParseError) (t : Token) : Prop where
  position : e.position = t.position
  found : e.found = t.type
  reason : e.Reason t

/-- Whether an expression starts with a token depends on the type of the token only. -/
theorem startsPhrase_eq_of_type_eq {kind kind' : TokenKind} (h : kind.type = kind'.type) :
    startsPhrase kind = startsPhrase kind' := by
  cases kind <;> cases kind' <;> cases h <;> rfl

/-- The error of a token that was not expected is about that token. -/
theorem concerns_unexpectedToken {t : Token} {expected : TokenType} (h : t.type ≠ expected) :
    (ParseError.unexpectedToken expected t.type t.position).Concerns t :=
  ⟨rfl, rfl, h.symm⟩

/-- The error of a token that starts no expression is about that token. -/
theorem concerns_noOperand {t : Token} (h : startsPhrase t.kind = false) :
    (Parser.noOperand t).Concerns t := by
  have hnone : ∀ kind : TokenKind, kind.type = t.kind.type → startsPhrase kind = false :=
    fun kind hkind ↦ (startsPhrase_eq_of_type_eq hkind).trans h
  rw [Parser.noOperand]
  cases hkind : t.kind with
  | illegal c => exact ⟨rfl, by rw [Token.type, hkind]; rfl, hkind⟩
  | unterminated text => exact ⟨rfl, by rw [Token.type, hkind]; rfl, text, hkind⟩
  | _ =>
    rw [hkind] at hnone
    exact ⟨rfl, by rw [Token.type, hkind]; rfl, hnone, by simp [TokenKind.type],
      by simp [TokenKind.type]⟩

/-! ## Slots -/

namespace Stream

/-- The errors are about tokens of the stream, each in a slot of its own: `2 * i` for an error
found in front of the token of number `i`, and `2 * i + 1` for one found after it was taken.  The
slots increase, and they stay below `limit`.  Errors are put into slots in the order in which they
are found.  That the slots stay below a limit is what lets the next error take the first one that
is free. -/
def Accounts (s : Stream) (limit : Nat) (errors : List ParseError) : Prop :=
  ∃ slots : List (Nat × ParseError), slots.map Prod.snd = errors ∧
    slots.Pairwise (fun a b ↦ a.1 < b.1) ∧
      ∀ a ∈ slots, a.1 < limit ∧ a.2.Concerns (s.skip (a.1 / 2)).head

theorem accounts_nil (s : Stream) (limit : Nat) : s.Accounts limit [] :=
  ⟨[], rfl, .nil, by simp⟩

/-- Slots may stay free. -/
theorem Accounts.mono {s : Stream} {limit limit' : Nat} {errors : List ParseError}
    (h : s.Accounts limit errors) (hle : limit ≤ limit') : s.Accounts limit' errors := by
  obtain ⟨slots, herrors, hlt, hslots⟩ := h
  exact ⟨slots, herrors, hlt, fun a ha ↦ ⟨Nat.lt_of_lt_of_le (hslots a ha).1 hle, (hslots a ha).2⟩⟩

/-- The first slot that is free takes the next error. -/
theorem Accounts.concat {s : Stream} {limit : Nat} {errors : List ParseError} {e : ParseError}
    (h : s.Accounts limit errors) (he : e.Concerns (s.skip (limit / 2)).head) :
    s.Accounts (limit + 1) (errors ++ [e]) := by
  obtain ⟨slots, rfl, hlt, hslots⟩ := h
  refine ⟨slots ++ [(limit, e)], by simp, ?_, ?_⟩
  · refine List.pairwise_append.2 ⟨hlt, List.pairwise_singleton _ _, ?_⟩
    intro a ha b hb
    obtain rfl := List.mem_singleton.1 hb
    exact (hslots a ha).1
  · intro a ha
    rcases List.mem_append.1 ha with ha | ha
    · exact ⟨Nat.lt_succ_of_lt (hslots a ha).1, (hslots a ha).2⟩
    · obtain rfl := List.mem_singleton.1 ha
      exact ⟨Nat.lt_succ_self _, he⟩

end Stream

namespace Parser

/-! ## Stages

A stage says up to where slots are taken, relative to the tokens that were taken. -/

/-- What can still be complained about without disorder.  A token is complained about at most
twice: as one that was not expected, when it is still the next one, and for itself, when it was
taken. -/
inductive Stage where
  /-- The next token was not complained about. -/
  | fresh
  /-- The next token may have been complained about while it was the next one. -/
  | blamed
  /-- The token was just taken, and was not complained about since. -/
  | took (t : Token)

/-- The errors of a state account for the tokens of `s` that were taken, and the state is at the
given stage.  The stage says where the next free slot is. -/
def State.At (s : Stream) (st : State) : Stage → Prop
  | .fresh => ∃ i, st.stream = s.skip i ∧ s.Accounts (2 * i) st.errors
  | .blamed => ∃ i, st.stream = s.skip i ∧ s.Accounts (2 * i + 1) st.errors
  | .took t => ∃ i, st.stream = s.skip (i + 1) ∧ (s.skip i).head = t ∧
      s.Accounts (2 * i + 1) st.errors

/-- Whoever can deal with a token that was complained about can deal with one that was not. -/
theorem State.At.blamed {s : Stream} {st : State} (h : st.At s .fresh) : st.At s .blamed := by
  obtain ⟨i, hstream, herrors⟩ := h
  exact ⟨i, hstream, herrors.mono (Nat.le_succ _)⟩

theorem State.At.fresh {s : Stream} {st : State} {t : Token} (h : st.At s (.took t)) :
    st.At s .fresh := by
  obtain ⟨i, hstream, -, herrors⟩ := h
  exact ⟨i + 1, hstream, herrors.mono (by omega)⟩

/-- Started at the stage `before`, the reader ends at the stage `after`.  If it gives up, it may
leave a token that it complained about.  The stages of a sequence of readers fit together like the
pieces of a chain, which is what `Ordered.bind` says. -/
def Ordered {α : Type} (before after : Stage) (read : Parser α) : Prop :=
  ∀ (s : Stream) (st : State), st.At s before →
    (read st).Post (fun _ u ↦ u.At s after) (fun _ u ↦ u.At s .blamed) True

namespace Ordered

variable {α β : Type} {before middle after : Stage}

/-- What can start after a complaint can start without one. -/
theorem early {read : Parser α} (h : Ordered .blamed after read) : Ordered .fresh after read :=
  fun s st hst ↦ h s st hst.blamed

theorem afterTaking {t : Token} {read : Parser α} (h : Ordered .fresh after read) :
    Ordered (.took t) after read :=
  fun s st hst ↦ h s st hst.fresh

theorem pure (value : α) : Ordered after after (pure value : Parser α) := fun _ _ hst ↦ hst

theorem exhaust : Ordered before after (Action.exhaust : Parser α) := fun _ _ _ ↦ trivial

theorem halt : Ordered .fresh after (Action.halt () : Parser α) := fun _ _ hst ↦ hst.blamed

/-- A token that was just taken can be complained about. -/
theorem fail {t : Token} {e : ParseError} (he : e.Concerns t) :
    Ordered (.took t) after (fail e : Parser α) := by
  rintro s st ⟨i, hstream, rfl, herrors⟩
  have hslot : (2 * i + 1) / 2 = i := by omega
  exact ⟨i + 1, hstream, (herrors.concat (by rwa [hslot])).mono (by omega)⟩

theorem bind {read : Parser α} {next : α → Parser β} (h : Ordered before middle read)
    (hnext : ∀ v, Ordered middle after (next v)) : Ordered before after (read >>= next) :=
  fun s st hst ↦ (h s st hst).bind fun v u hu ↦ hnext v s u hu

theorem ite {c : Prop} [Decidable c] {read other : Parser α} (h : c → Ordered before after read)
    (h' : ¬ c → Ordered before after other) :
    Ordered before after (if c then read else other) := by
  split
  · exact h ‹_›
  · exact h' ‹_›

theorem peek_bind {next : Token → Parser β} (h : ∀ t, Ordered before after (next t)) :
    Ordered before after (peek >>= next) :=
  fun s st hst ↦ h st.stream.head s st hst

theorem take_bind {next : Token → Parser β} (h : ∀ t, Ordered (.took t) after (next t)) :
    Ordered .blamed after (take >>= next) := by
  rintro s st ⟨i, hstream, herrors⟩
  refine h st.stream.head s ⟨st.stream.tail, st.errors⟩ ⟨i, ?_, by rw [hstream], herrors⟩
  show st.stream.tail = s.skip (i + 1)
  rw [hstream, ← Stream.skip_skip]
  rfl

theorem take : Ordered .blamed .fresh take := take_bind fun t ↦ (pure t).afterTaking

/-- A token that was not complained about can be, while it is the next one. -/
theorem expect (expected : TokenType) : Ordered .fresh .fresh (expect expected) := by
  intro s st hst
  by_cases htype : st.stream.head.type = expected
  · rw [expect_of_eq htype]
    exact take s st hst.blamed
  · rw [expect_of_ne htype]
    obtain ⟨i, hstream, herrors⟩ := hst
    have hslot : 2 * i / 2 = i := by omega
    refine ⟨i, hstream, herrors.concat ?_⟩
    rw [hslot, ← hstream]
    exact concerns_unexpectedToken htype

theorem skipIf (wanted : TokenType) : Ordered .fresh .fresh (skipIf wanted) :=
  peek_bind fun _ ↦ ite (fun _ ↦ take.early.bind fun _ ↦ pure ()) fun _ ↦ pure ()

theorem identifier : Ordered .fresh .fresh identifier := (expect _).bind fun _ ↦ pure _

/-- After a failure, the next token may have been complained about. -/
theorem attempt {read : Parser α} (h : Ordered before .fresh read) :
    Ordered before .blamed (attempt read) := by
  intro s st hst
  have hread := h s st hst
  rw [Parser.attempt]
  cases hcases : read st with
  | done v u =>
    rw [hcases] at hread
    exact State.At.blamed hread
  | stop e u =>
    rw [hcases] at hread
    exact hread
  | exhausted => trivial

end Ordered

/-! ## Every reader

Expressions and statements can start in front of a token that was complained about, because they
take it before they say anything.  Everything else starts in front of a fresh one. -/

theorem ordered_moreParameters (depth : Nat) : Ordered .fresh .fresh (moreParameters depth) := by
  induction depth with
  | zero => exact .exhaust
  | succ depth ih =>
    rw [moreParameters]
    refine .peek_bind fun t ↦ .ite (fun _ ↦ ?_) fun _ ↦ ?_
    · exact Ordered.take.early.bind fun _ ↦ Ordered.identifier.bind fun _ ↦ ih.bind fun _ ↦ .pure _
    · exact (Ordered.expect _).bind fun _ ↦ .pure _

theorem ordered_parameters (depth : Nat) : Ordered .fresh .fresh (parameters depth) := by
  rw [parameters]
  refine .peek_bind fun t ↦ .ite (fun _ ↦ ?_) fun _ ↦ ?_
  · exact Ordered.take.early.bind fun _ ↦ .pure _
  · exact Ordered.identifier.bind fun _ ↦ (ordered_moreParameters depth).bind fun _ ↦ .pure _

mutual

theorem ordered_expression : ∀ depth level, Ordered .blamed .fresh (expression depth level)
  | 0, _ => .exhaust
  | depth + 1, level => by
    rw [expression]
    exact (ordered_operand depth).bind fun left ↦ ordered_climb depth level left

theorem ordered_climb : ∀ depth level left, Ordered .fresh .fresh (climb depth level left)
  | 0, _, _ => .exhaust
  | depth + 1, level, left => by
    rw [climb]
    refine .peek_bind fun t ↦ .ite (fun _ ↦ ?_) fun _ ↦ .pure left
    split
    · exact .pure left
    · rename_i way _
      exact Ordered.take.early.bind fun _ ↦ (ordered_continued depth way t left).bind fun longer ↦
        ordered_climb depth level longer

theorem ordered_continued : ∀ depth way (t : Token) left,
    Ordered .fresh .fresh (continued depth way t left)
  | 0, _, _, _ => .exhaust
  | depth + 1, .operation, t, left => by
    rw [continued]
    split
    · exact .halt
    · exact (ordered_expression depth _).early.bind fun _ ↦ .pure _
  | depth + 1, .call, _, _ => by
    rw [continued]
    exact (ordered_expressions depth _).bind fun _ ↦ .pure _
  | depth + 1, .index, _, _ => by
    rw [continued]
    exact (ordered_expression depth _).early.bind fun _ ↦ (Ordered.expect _).bind fun _ ↦ .pure _

/-- The token of an operand may have been complained about before, as when a statement starts in
front of it after a failure. -/
theorem ordered_operand : ∀ depth, Ordered .blamed .fresh (operand depth)
  | 0 => .exhaust
  | depth + 1 => by
    rw [operand]
    refine .take_bind fun t ↦ ?_
    -- only a number and a token that starts no expression are complained about themselves
    split
    · exact (Ordered.pure _).afterTaking
    · rename_i digits hkind
      split
      · exact (Ordered.pure _).afterTaking
      · exact .fail ⟨rfl, by rw [Token.type, hkind]; rfl, hkind⟩
    · exact (Ordered.pure _).afterTaking
    · exact (Ordered.pure _).afterTaking
    · exact (Ordered.pure _).afterTaking
    · rename_i hkind
      rw [hkind]
      exact ((ordered_expression depth _).early.bind fun _ ↦ .pure _).afterTaking
    · rename_i hkind
      rw [hkind]
      exact ((ordered_expression depth _).early.bind fun _ ↦ .pure _).afterTaking
    · exact ((ordered_expression depth _).early.bind fun _ ↦
        (Ordered.expect _).bind fun _ ↦ .pure _).afterTaking
    · exact (ordered_conditional depth t).afterTaking
    · exact ((Ordered.expect _).bind fun _ ↦ (ordered_parameters depth).bind fun _ ↦
        (Ordered.expect _).bind fun brace ↦ (ordered_block depth brace).bind fun _ ↦
          .pure _).afterTaking
    · exact ((ordered_expressions depth _).bind fun _ ↦ .pure _).afterTaking
    · exact ((ordered_pairs depth).bind fun _ ↦ .pure _).afterTaking
    · refine .fail (concerns_noOperand ?_)
      rw [startsPhrase.eq_def]
      split <;> first | rfl | simp_all

theorem ordered_conditional : ∀ depth t, Ordered .fresh .fresh (conditional depth t)
  | 0, _ => .exhaust
  | depth + 1, t => by
    rw [conditional]
    refine (Ordered.expect _).bind fun _ ↦ (ordered_expression depth _).early.bind fun _ ↦
      (Ordered.expect _).bind fun _ ↦ (Ordered.expect _).bind fun brace ↦
        (ordered_block depth brace).bind fun _ ↦ ?_
    refine .peek_bind fun next ↦ .ite (fun _ ↦ ?_) fun _ ↦ .pure _
    exact Ordered.take.early.bind fun _ ↦ (Ordered.expect _).bind fun brace ↦
      (ordered_block depth brace).bind fun _ ↦ .pure _

theorem ordered_expressions : ∀ depth close, Ordered .fresh .fresh (expressions depth close)
  | 0, _ => .exhaust
  | depth + 1, close => by
    rw [expressions]
    refine .peek_bind fun t ↦ .ite (fun _ ↦ ?_) fun _ ↦ ?_
    · exact Ordered.take.early.bind fun _ ↦ .pure _
    · exact (ordered_expression depth _).early.bind fun _ ↦
        (ordered_moreExpressions depth close).bind fun _ ↦ .pure _

theorem ordered_moreExpressions : ∀ depth close,
    Ordered .fresh .fresh (moreExpressions depth close)
  | 0, _ => .exhaust
  | depth + 1, close => by
    rw [moreExpressions]
    refine .peek_bind fun t ↦ .ite (fun _ ↦ ?_) fun _ ↦ ?_
    · exact Ordered.take.early.bind fun _ ↦ (ordered_expression depth _).early.bind fun _ ↦
        (ordered_moreExpressions depth close).bind fun _ ↦ .pure _
    · exact (Ordered.expect _).bind fun _ ↦ .pure _

theorem ordered_pairs : ∀ depth, Ordered .fresh .fresh (pairs depth)
  | 0 => .exhaust
  | depth + 1 => by
    rw [pairs]
    refine .peek_bind fun t ↦ .ite (fun _ ↦ ?_) fun _ ↦ ?_
    · exact Ordered.take.early.bind fun _ ↦ .pure _
    · refine (ordered_expression depth _).early.bind fun _ ↦ (Ordered.expect _).bind fun _ ↦
        (ordered_expression depth _).early.bind fun _ ↦ .peek_bind fun next ↦
          .ite (fun _ ↦ ?_) fun _ ↦ ?_
      · exact (ordered_pairs depth).bind fun _ ↦ .pure _
      · exact (Ordered.expect _).bind fun _ ↦ (ordered_pairs depth).bind fun _ ↦ .pure _

theorem ordered_statement : ∀ depth, Ordered .blamed .fresh (statement depth)
  | 0 => .exhaust
  | depth + 1 => by
    rw [statement]
    refine .peek_bind fun t ↦ ?_
    -- the token that the last statement stumbled over is taken at once
    split
    · exact Ordered.take.bind fun _ ↦ Ordered.identifier.bind fun _ ↦
        (Ordered.expect _).bind fun _ ↦ (ordered_expression depth _).early.bind fun _ ↦
          (Ordered.skipIf _).bind fun _ ↦ .pure _
    · refine Ordered.take.bind fun _ ↦ .peek_bind fun next ↦ .ite (fun _ ↦ ?_) fun _ ↦ ?_
      · exact (Ordered.skipIf _).bind fun _ ↦ .pure _
      · exact (ordered_expression depth _).early.bind fun _ ↦
          (Ordered.skipIf _).bind fun _ ↦ .pure _
    · exact (ordered_expression depth _).bind fun _ ↦ (Ordered.skipIf _).bind fun _ ↦ .pure _

/-- Between two statements the token in front may have been complained about by the first of them.
-/
theorem ordered_statements : ∀ depth inBlock,
    Ordered .blamed .blamed (statements depth inBlock)
  | 0, _ => .exhaust
  | depth + 1, inBlock => by
    rw [statements]
    refine .peek_bind fun t ↦ .ite (fun _ ↦ .pure _) fun _ ↦ ?_
    exact (ordered_statement depth).attempt.bind fun _ ↦
      (ordered_statements depth inBlock).bind fun _ ↦ .pure _

theorem ordered_block : ∀ depth brace, Ordered .fresh .fresh (block depth brace)
  | 0, _ => .exhaust
  | depth + 1, brace => by
    rw [block]
    refine (ordered_statements depth true).early.bind fun _ ↦ .take_bind fun t ↦
      .ite (fun heof ↦ ?_) fun _ ↦ (Ordered.pure _).afterTaking
    have htype : t.type = .eof := by rw [Token.type, heof]; rfl
    have hconcerns :
        (ParseError.unexpectedToken (.symbol .rightBrace) t.type t.position).Concerns t :=
      concerns_unexpectedToken (by simp [htype])
    rw [htype] at hconcerns
    exact .fail hconcerns

end

end Parser

/-! ## Tokens of a stream by their numbers -/

namespace Stream

theorem head_skip_of_lt {s : Stream} {i : Nat} (h : i < s.pending.length) :
    (s.skip i).head = s.pending[i] := by
  rw [head, pending_skip, List.drop_eq_getElem_cons h]

/-- After the last token, every token is an end of the input, each one column further. -/
theorem head_skip_of_le {s : Stream} {i : Nat} (h : s.pending.length ≤ i) :
    (s.skip i).head = .eof ⟨s.finish.line, s.finish.column + (i - s.pending.length)⟩ := by
  induction i generalizing s with
  | zero =>
    have hnil : s.pending = [] := List.eq_nil_of_length_eq_zero (Nat.le_zero.1 h)
    rw [skip, head, hnil]
    rfl
  | succ i ih =>
    obtain ⟨pending, finish⟩ := s
    cases pending with
    | nil =>
      have hlast := ih (s := ⟨[], finish.right⟩) (Nat.zero_le i)
      rw [skip, tail, hlast]
      simp only [Position.right, List.length_nil, Nat.sub_zero, Nat.add_assoc, Nat.add_comm 1]
    | cons t ts =>
      have hlast := ih (s := ⟨ts, finish⟩) (Nat.le_of_succ_le_succ h)
      rw [skip, tail, hlast, List.length_cons, Nat.add_sub_add_right]

/-- The end of the input is seen exactly after the last token. -/
theorem type_head_skip_eq_eof_iff {s : Stream} (hs : ∀ t ∈ s.pending, t.kind ≠ .eof) (i : Nat) :
    (s.skip i).head.type = .eof ↔ s.pending.length ≤ i := by
  constructor
  · intro htype
    refine Nat.not_lt.1 fun hlt ↦ ?_
    have hne := hs _ (List.getElem_mem hlt)
    rw [head_skip_of_lt hlt, Token.type] at htype
    cases hkind : s.pending[i].kind <;> simp_all [TokenKind.type]
  · intro hle
    rw [head_skip_of_le hle]
    rfl

/-! ## What the slots say -/

/-- Different numbers with the same half are at most two. -/
theorem length_le_two_of_half_eq {slots : List Nat} (hlt : slots.Pairwise (· < ·))
    (hhalf : ∀ a ∈ slots, ∀ b ∈ slots, a / 2 = b / 2) : slots.length ≤ 2 := by
  match slots, hlt, hhalf with
  | [], _, _ => exact Nat.zero_le 2
  | [_], _, _ => exact Nat.le_succ 1
  | [_, _], _, _ => exact Nat.le_refl 2
  | a :: b :: c :: slots, hlt, hhalf =>
    have hab : a < b := List.rel_of_pairwise_cons hlt (by simp)
    have hbc : b < c := List.rel_of_pairwise_cons hlt.of_cons (by simp)
    have hac : a / 2 = c / 2 := hhalf a (by simp) c (by simp)
    omega

namespace Accounts

variable {s : Stream} {limit : Nat} {errors : List ParseError}

/-- The errors stand in the order of their tokens.  Slots are numbered in the order of the tokens,
and errors in the order of their slots. -/
theorem in_order (h : s.Accounts limit errors) (hs : s.Increasing) :
    errors.Pairwise fun e e' ↦ e.position = e'.position ∨ e.position.Before e'.position := by
  obtain ⟨slots, rfl, hlt, hslots⟩ := h
  refine List.pairwise_map.2 (hlt.imp_of_mem fun {a b} ha hb hab ↦ ?_)
  rw [(hslots a ha).2.position, (hslots b hb).2.position]
  rcases Nat.eq_or_lt_of_le (Nat.div_le_div_right (c := 2) (Nat.le_of_lt hab)) with heq | hlt
  · exact .inl (by rw [heq])
  · exact .inr (hs.before_of_lt hlt)

/-- At most two errors stand at one place. -/
theorem countP_le_two (h : s.Accounts limit errors) (hs : s.Increasing) (p : Position) :
    errors.countP (fun e ↦ e.position = p) ≤ 2 := by
  obtain ⟨slots, rfl, hlt, hslots⟩ := h
  rw [List.countP_map, List.countP_eq_length_filter, ← List.length_map (f := Prod.fst)]
  refine length_le_two_of_half_eq (List.pairwise_map.2 (hlt.filter _)) ?_
  have hplace : ∀ a ∈ slots.filter ((fun e : ParseError ↦ decide (e.position = p)) ∘ Prod.snd),
      (s.skip (a.1 / 2)).head.position = p := by
    intro a ha
    obtain ⟨ha, hp⟩ := List.mem_filter.1 ha
    rw [← (hslots a ha).2.position]
    exact of_decide_eq_true hp
  intro i hi j hj
  obtain ⟨a, ha, rfl⟩ := List.mem_map.1 hi
  obtain ⟨b, hb, rfl⟩ := List.mem_map.1 hj
  exact hs.eq_of_position_eq ((hplace a ha).trans (hplace b hb).symm)

/-- After an error about the end of the input there is none about another token. -/
theorem eof_last (h : s.Accounts limit errors) (hs : ∀ t ∈ s.pending, t.kind ≠ .eof) :
    errors.Pairwise fun e e' ↦ e.found = .eof → e'.found = .eof := by
  obtain ⟨slots, rfl, hlt, hslots⟩ := h
  refine List.pairwise_map.2 (hlt.imp_of_mem fun {a b} ha hb hab ↦ ?_)
  rw [(hslots a ha).2.found, (hslots b hb).2.found, type_head_skip_eq_eof_iff hs,
    type_head_skip_eq_eof_iff hs]
  omega

/-- Every error is about a token, or about an end of the input after the last token. -/
theorem exists_concerns (h : s.Accounts limit errors) {e : ParseError} (he : e ∈ errors) :
    ∃ t, e.Concerns t ∧ (t ∈ s.pending ∨
      t.kind = .eof ∧ t.position.line = s.finish.line ∧ s.finish.column ≤ t.position.column) := by
  obtain ⟨slots, rfl, -, hslots⟩ := h
  obtain ⟨a, ha, rfl⟩ := List.mem_map.1 he
  refine ⟨_, (hslots a ha).2, ?_⟩
  rcases Nat.lt_or_ge (a.1 / 2) s.pending.length with hlt | hle
  · rw [head_skip_of_lt hlt]
    exact .inl (List.getElem_mem hlt)
  · rw [head_skip_of_le hle]
    exact .inr ⟨rfl, rfl, Nat.le_add_right _ _⟩

end Accounts

/-- The errors of a stream account for its tokens. -/
theorem accounts_parse (s : Stream) : ∃ limit, s.Accounts limit s.parse.errors := by
  obtain ⟨statements, t, hread, -, hparse⟩ := s.parse_ends (Nat.le_refl _)
  have hordered := Parser.ordered_statements s.depth false s ⟨s, []⟩
    ⟨0, rfl, s.accounts_nil _⟩
  rw [hread] at hordered
  obtain ⟨i, -, herrors⟩ := hordered
  rw [hparse]
  exact ⟨_, herrors⟩

end Stream

/-- **The errors of a text come in the order of its tokens, and each is about one of them.**  No
error stands before an earlier one, at most two share one place, and after an error about the end of
the input there is none about another token.  Every error has the place and the type of a token of
the text and a reason to complain about it; if it is about the end of the input, it stands on the
line where the text ends, there or further right. -/
theorem errors_in_order (text : String) :
    ∃ tokens finish, tokenize text = tokens ++ [.eof finish] ∧ (∀ t ∈ tokens, t.kind ≠ .eof) ∧
      ((parse text).errors.Pairwise fun e e' ↦
        e.position = e'.position ∨ e.position.Before e'.position) ∧
      (∀ p, (parse text).errors.countP (fun e ↦ e.position = p) ≤ 2) ∧
      ((parse text).errors.Pairwise fun e e' ↦ e.found = .eof → e'.found = .eof) ∧
      ∀ e ∈ (parse text).errors, ∃ t, e.Concerns t ∧ (t ∈ tokens ∨
        t.kind = .eof ∧ t.position.line = finish.line ∧ finish.column ≤ t.position.column) := by
  obtain ⟨limit, haccounts⟩ := (Cursor.ofText text).stream.accounts_parse
  have hincreasing := (Cursor.ofText text).increasing_stream.1
  have hpending := (Cursor.ofText text).kind_ne_eof_of_mem_pending
  exact ⟨_, _, rfl, hpending, haccounts.in_order hincreasing, haccounts.countP_le_two hincreasing,
    haccounts.eof_last hpending, fun e he ↦ haccounts.exists_concerns he⟩

/-- Two errors do share a place: a semicolon is no name, and no expression starts with it. -/
example : (parse "let ;").errors =
    [.unexpectedToken .ident (.symbol .semicolon) ⟨1, 5⟩,
      .noExpression (.symbol .semicolon) ⟨1, 5⟩] := by
  decide +kernel

end MonkeyLang
