import MonkeyLang.Proofs.Parse.Calls
import MonkeyLang.Proofs.Token.Layout
import MonkeyLang.Token.Lexer

/-!
# Reading a text comes to an end

`parse_terminates` says why: in the order of time, every call of a reader finds strictly fewer
tokens left than any earlier call of the same reader, or it finds none.  A call that finds none
soon comes to an end, and all that it can take is the end of the input, because that is delivered
over and over again.

The only reader for which this is not so is `climb`.  It is entered once more where an operand
turns out to be the last one, so its calls are the tests of a loop.  The rounds of that loop are
the calls of `continued`, one for each token that continues an expression.

## Ranks and stages

Between two calls of the same reader there is a token that was taken.  To see this it is enough to
know in which order readers are called while no token is taken, which is what `Reader.rank` says: a
call has a lower rank than those since the last token.  The ranks that are still free make up the
stage of a run.  Taking a token sets all of them free; after a failure those below that of `block`
are free, and with them all that is needed for the next statement.

The statement is about all pairs of calls in a run and not about a call and those inside of it.
Calls that come one after the other, such as those for the elements of an array, have to be apart
as well, and calls in a statement after one that failed.  So what is carried along is a log of all
calls so far, and `Descending` is what is known of it.

## What it does not say

This is not the reason why the definitions are accepted: they recurse on a bound of their depth.
That the bound suffices is `MonkeyLang.Proofs.Parse.Depth`, and the number of calls is not bounded
there.  Here the argument is the other way around: calls of one reader come with fewer and fewer
tokens, so until none is left there are at most as many calls of it as there are tokens.
-/

set_option autoImplicit false

namespace MonkeyLang
namespace Parser

/-! ## Stages of a run

A stage is a number up to six.  At the stage `n` the readers of rank below `n` can be called
without a token in between. -/

namespace Reader

/-- The order in which readers are called while no token is taken, the first ones highest. -/
def rank : Reader → Nat
  | operand => 0
  | expression => 1
  | expressions | pairs => 2
  | statement => 3
  | statements => 4
  | moreParameters | continued | conditional | moreExpressions | block => 5
  | climb => 6

/-- The stage from which on a reader can be called. -/
def entry : Reader → Nat
  | climb => 6
  | r => r.rank + 1

/-- The stage at which a reader that is done leaves the run.  All of them have just taken a token,
so that every reader can be called, except that a sequence of statements leaves the token that ends
it. -/
def exit : Reader → Nat
  | statements => 4
  | _ => 6

theorem entry_of_ne_climb {r : Reader} (h : r ≠ climb) : r.entry = r.rank + 1 := by
  cases r <;> first | rfl | exact absurd rfl h

theorem rank_le_entry (r : Reader) : r.rank ≤ r.entry := by
  cases r <;> decide

end Reader

/-- The later call `b` finds strictly fewer tokens left than `a`, or none, if both are calls of one
reader.  With no token left, a reader can be called twice in front of the same end.  The loop of an
expression is left out, for the loops of an expression and of its last operand are entered in front
of the same token. -/
def Visit.Apart (a b : Visit) : Prop :=
  a.call.reader = b.call.reader → a.call.reader ≠ .climb → b.left < a.left ∨ b.left = 0

/-- What is known of the calls so far when `left` tokens are left.  The stage tells which readers
are free to be called: those below it have not been called since the last token was taken. -/
structure Descending (log : List Visit) (stage left : Nat) : Prop where
  apart : log.Pairwise Visit.Apart
  le : ∀ a ∈ log, left ≤ a.left
  /-- A token was taken since the last call of a reader whose rank is below the stage. -/
  free : ∀ a ∈ log, a.call.reader.rank < stage → left < a.left ∨ left = 0

namespace Descending

variable {log : List Visit} {stage stage' left : Nat}

/-- At a lower stage less is known to be free. -/
theorem mono (h : Descending log stage left) (hle : stage' ≤ stage) :
    Descending log stage' left :=
  ⟨h.apart, h.le, fun a ha hrank ↦ h.free a ha (Nat.lt_of_lt_of_le hrank hle)⟩

/-- Taking a token sets all readers free. -/
theorem take (h : Descending log stage left) : Descending log stage' (left - 1) := by
  refine ⟨h.apart, fun a ha ↦ ?_, fun a ha _ ↦ ?_⟩
  · have hle := h.le a ha
    omega
  · have hle := h.le a ha
    omega

/-- A call is added to the log. -/
theorem visit {c : Call} {s : State} (h : Descending log c.reader.entry s.stream.pending.length) :
    Descending (log ++ [⟨c, s⟩]) c.reader.rank s.stream.pending.length := by
  refine ⟨List.pairwise_append.2 ⟨h.apart, List.pairwise_singleton _ _, ?_⟩, ?_, ?_⟩
  · intro a ha b hb hsame hclimb
    obtain rfl := List.mem_singleton.1 hb
    refine h.free a ha ?_
    rw [hsame] at hclimb ⊢
    rw [Reader.entry_of_ne_climb hclimb]
    exact Nat.lt_succ_self _
  · intro a ha
    rcases List.mem_append.1 ha with ha | ha
    · exact h.le a ha
    · obtain rfl := List.mem_singleton.1 ha
      exact Nat.le_refl _
  · intro a ha hrank
    rcases List.mem_append.1 ha with ha | ha
    · exact h.free a ha (Nat.lt_of_lt_of_le hrank c.reader.rank_le_entry)
    · obtain rfl := List.mem_singleton.1 ha
      exact absurd hrank (Nat.lt_irrefl _)

end Descending

/-- After the calls of `log`, the run has come to the outcome `o`: at the stage `after` if it is
done, and at stage five if it gave up, where all that statements consist of can be called.  The
calls before are part of what is claimed, because the calls of a run have to be compared with them.
-/
def Comes {α : Type} (log : List Visit) (after : Nat) (o : Outcome Unit State α) : Prop :=
  o.Post (fun _ t ↦ Descending log after t.stream.pending.length)
    (fun _ t ↦ Descending log 5 t.stream.pending.length) (log.Pairwise Visit.Apart)

/-! ## Plans

A plan takes a run from one stage to another.  For its steps it is enough to know whether they take
a token. -/

/-- Started at the stage `before`, the plan ends at the stage `after`, whatever was called earlier.
What is known of the calls so far goes in, and what is known of them and of the calls of the plan
comes out. -/
def Plan.Keeps {α : Type} (depth before after : Nat) (p : Plan α) : Prop :=
  ∀ (log : List Visit) (s : State), Descending log before s.stream.pending.length →
    Comes (log ++ p.visits (Call.read depth) (Call.visits depth) s) after
      (p.run (Call.read depth) s)

/-- Started at its stage, the call ends at its stage, whatever was called earlier. -/
def Call.Keeps (depth : Nat) (c : Call) : Prop :=
  ∀ (log : List Visit) (s : State), Descending log c.reader.entry s.stream.pending.length →
    Comes (log ++ c.visits depth s) c.reader.exit (c.read depth s)

/-- The same of something that calls no reader.  No call is added to the log, but tokens may be
taken, and that sets readers free. -/
def Passes {α : Type} (before after : Nat) (action : Parser α) : Prop :=
  ∀ (log : List Visit) (s : State), Descending log before s.stream.pending.length →
    Comes log after (action s)

namespace Passes

variable {α : Type} {before after : Nat}

theorem peek : Passes before before peek := fun _ _ h ↦ h

theorem take : Passes before 6 take := by
  intro log s h
  show Descending log 6 s.stream.tail.pending.length
  rw [Stream.pending_tail, List.length_tail]
  exact h.take

/-- A step that gives up has to do so at the stage of a failure or above. -/
theorem fail (e : ParseError) (hle : 5 ≤ before) : Passes before after (fail e : Parser α) :=
  fun _ _ h ↦ h.mono hle

theorem halt (hle : 5 ≤ before) : Passes before after (Action.halt () : Parser α) :=
  fun _ _ h ↦ h.mono hle

theorem bind {β : Type} {middle : Nat} {action : Parser α} {next : α → Parser β}
    (h : Passes before middle action) (hnext : ∀ v, Passes middle after (next v)) :
    Passes before after (action >>= next) :=
  fun log s hs ↦ (h log s hs).bind fun v t ht ↦ hnext v log t ht

theorem ite {c : Prop} [Decidable c] {action other : Parser α} (h : Passes before after action)
    (h' : Passes before after other) : Passes before after (if c then action else other) := by
  split
  · exact h
  · exact h'

theorem pure (value : α) : Passes before before (pure value : Parser α) := fun _ _ h ↦ h

theorem expect (expected : TokenType) (hle : 5 ≤ before) : Passes before 6 (expect expected) :=
  peek.bind fun _ ↦ ite take (fail _ hle)

theorem identifier (hle : 5 ≤ before) : Passes before 6 identifier :=
  (expect _ hle).bind fun _ ↦ pure _

theorem skipIf (wanted : TokenType) : Passes 6 6 (skipIf wanted) :=
  peek.bind fun _ ↦ ite (take.bind fun _ ↦ pure _) (pure _)

end Passes

namespace Plan.Keeps

variable {α β : Type} {depth before middle after : Nat}

theorem pure (value : α) : Keeps depth after after (pure value : Plan α) := by
  intro log s h
  show Descending (log ++ []) after _
  rw [List.append_nil]
  exact h

theorem ite {c : Prop} [Decidable c] {p q : Plan α} (h : Keeps depth before after p)
    (h' : Keeps depth before after q) : Keeps depth before after (if c then p else q) := by
  split
  · exact h
  · exact h'

theorem bind {p : Plan α} {f : α → Plan β} (h : Keeps depth before middle p)
    (hnext : ∀ v, Keeps depth middle after (f v)) : Keeps depth before after (p >>= f) := by
  intro log s hs
  have hp := h log s hs
  rw [visits_bind, run_bind, Action.bind_apply, ← List.append_assoc]
  cases hcases : p.run (Call.read depth) s with
  | done v t =>
    rw [hcases] at hp
    exact hnext v _ t hp
  | stop e t =>
    rw [hcases] at hp
    rw [whenDone, List.append_nil]
    exact hp
  | exhausted =>
    rw [hcases] at hp
    rw [whenDone, List.append_nil]
    exact hp

theorem doing {action : Parser α} (h : Passes before after action) :
    Keeps depth before after (doing action) := by
  intro log s hs
  have hnone : (Plan.doing action).visits (Call.read depth) (Call.visits depth) s = [] := by
    rw [Plan.doing, visits]
    cases action s <;> rfl
  rw [hnone, List.append_nil, run_doing]
  exact h log s hs

theorem calling {c : Call} (h : c.Keeps depth) (hle : c.reader.entry ≤ before) :
    Keeps depth before c.reader.exit (calling c) := by
  intro log s hs
  have hone : (Plan.calling c).visits (Call.read depth) (Call.visits depth) s =
      c.visits depth s := by
    rw [Plan.calling, visits]
    cases c.read depth s <;> exact List.append_nil _
  rw [hone, run_calling]
  exact h log s (hs.mono hle)

/-- Going on in any case means to go on at the stage of a failure. -/
theorem attempting {c : Call} (h : c.Keeps depth) (hle : c.reader.entry ≤ before)
    (hexit : 5 ≤ c.reader.exit) : Keeps depth before 5 (attempting c) := by
  intro log s hs
  have hc := h log s (hs.mono hle)
  have hone : (Plan.attempting c).visits (Call.read depth) (Call.visits depth) s =
      c.visits depth s := by
    rw [Plan.attempting, visits]
    cases Parser.attempt (c.read depth) s <;> exact List.append_nil _
  rw [hone, run_attempting, Parser.attempt]
  cases hcases : c.read depth s with
  | done v t =>
    rw [hcases] at hc
    exact Descending.mono hc hexit
  | stop e t =>
    rw [hcases] at hc
    exact hc
  | exhausted =>
    rw [hcases] at hc
    exact hc

end Plan.Keeps

/-! ## Every reader

The induction is on the bound of the depth.  The plans of the readers are gone through once, and
each of their calls is made at a stage where it is free. -/

section Readers

open Plan

variable {depth : Nat}

theorem keeps_parameters (ih : ∀ c : Call, c.Keeps depth) :
    Plan.Keeps depth 6 6 Plan.parameters := by
  refine (Plan.Keeps.doing .peek).bind fun t ↦ .ite ?_ ?_
  · exact (Plan.Keeps.doing .take).bind fun _ ↦ .pure _
  · exact (Plan.Keeps.doing (.identifier (by decide))).bind fun _ ↦
      (Plan.Keeps.calling (ih .moreParameters) (by decide)).bind fun _ ↦ .pure _

theorem keeps_operand (ih : ∀ c : Call, c.Keeps depth) :
    Plan.Keeps depth Reader.operand.rank 6 Call.operand.plan := by
  rw [Call.plan]
  refine (Plan.Keeps.doing .take).bind fun t ↦ ?_
  split
  · exact .pure _
  · split
    · exact .pure _
    · exact .doing (.fail _ (by decide))
  · exact .pure _
  · exact .pure _
  · exact .pure _
  · split
    · exact .doing (.halt (by decide))
    · exact (Plan.Keeps.calling (ih (.expression _)) (by decide)).bind fun _ ↦ .pure _
  · split
    · exact .doing (.halt (by decide))
    · exact (Plan.Keeps.calling (ih (.expression _)) (by decide)).bind fun _ ↦ .pure _
  · exact (Plan.Keeps.calling (ih (.expression _)) (by decide)).bind fun _ ↦
      (Plan.Keeps.doing (.expect _ (by decide))).bind fun _ ↦ .pure _
  · exact Plan.Keeps.calling (ih (.conditional t)) (Nat.le_refl 6)
  · exact (Plan.Keeps.doing (.expect _ (by decide))).bind fun _ ↦ (keeps_parameters ih).bind fun _ ↦
      (Plan.Keeps.doing (.expect _ (by decide))).bind fun brace ↦
        (Plan.Keeps.calling (ih (.block brace)) (Nat.le_refl 6)).bind fun _ ↦ .pure _
  · exact (Plan.Keeps.calling (ih (.expressions _)) (by decide)).bind fun _ ↦ .pure _
  · exact (Plan.Keeps.calling (ih .pairs) (by decide)).bind fun _ ↦ .pure _
  · exact .doing (.fail _ (by decide))

/-- Every plan goes from the stage of its call to the one where it leaves the run.  One case for
each reader.  The hypothesis is about all calls, with a bound on their depth that is smaller by
one. -/
theorem keeps_plan (ih : ∀ c : Call, c.Keeps depth) (c : Call) :
    c.plan.Keeps depth c.reader.rank c.reader.exit := by
  have htake : ∀ {before}, Plan.Keeps depth before 6 (doing take) := .doing .take
  have hpeek : ∀ {before}, Plan.Keeps depth before before (doing peek) := .doing .peek
  have hexpect : ∀ {before} expected, 5 ≤ before →
      Plan.Keeps depth before 6 (doing (expect expected)) :=
    fun expected hle ↦ .doing (.expect expected hle)
  have hexpression : ∀ {before} level, 2 ≤ before →
      Plan.Keeps depth before 6 (calling (.expression level)) :=
    fun level hle ↦ .calling (ih (.expression level)) hle
  cases c with
  | moreParameters =>
    show Plan.Keeps depth 5 6 _
    refine hpeek.bind fun t ↦ .ite ?_ ?_
    · exact htake.bind fun _ ↦ (Plan.Keeps.doing (.identifier (by decide))).bind fun _ ↦
        (Plan.Keeps.calling (ih .moreParameters) (by decide)).bind fun _ ↦ .pure _
    · exact (hexpect _ (by decide)).bind fun _ ↦ .pure _
  | expression level =>
    show Plan.Keeps depth 1 6 _
    refine (Plan.Keeps.calling (ih .operand) (by decide)).bind fun left ↦ ?_
    exact Plan.Keeps.calling (ih (.climb level left)) (Nat.le_refl 6)
  | climb level left =>
    show Plan.Keeps depth 6 6 _
    refine hpeek.bind fun t ↦ .ite ?_ (.pure left)
    split
    · exact .pure left
    · rename_i way _
      exact htake.bind fun _ ↦
        (Plan.Keeps.calling (ih (.continued way t left)) (Nat.le_refl 6)).bind fun longer ↦
          Plan.Keeps.calling (ih (.climb level longer)) (Nat.le_refl 6)
  | continued way t left =>
    show Plan.Keeps depth 5 6 _
    cases way with
    | operation =>
      rw [Call.plan]
      split
      · exact .doing (.halt (by decide))
      · exact (hexpression _ (by decide)).bind fun _ ↦ .pure _
    | call => exact (Plan.Keeps.calling (ih (.expressions _)) (by decide)).bind fun _ ↦ .pure _
    | index =>
      exact (hexpression _ (by decide)).bind fun _ ↦
        (hexpect _ (by decide)).bind fun _ ↦ .pure _
  | operand => exact keeps_operand ih
  | conditional t =>
    show Plan.Keeps depth 5 6 _
    refine (hexpect _ (by decide)).bind fun _ ↦
      (hexpression _ (by decide)).bind fun _ ↦
        (hexpect _ (by decide)).bind fun _ ↦ (hexpect _ (by decide)).bind fun brace ↦
          (Plan.Keeps.calling (ih (.block brace)) (Nat.le_refl 6)).bind fun _ ↦ ?_
    refine hpeek.bind fun next ↦ .ite ?_ (.pure _)
    exact htake.bind fun _ ↦ (hexpect _ (by decide)).bind fun brace ↦
      (Plan.Keeps.calling (ih (.block brace)) (Nat.le_refl 6)).bind fun _ ↦ .pure _
  | expressions close =>
    show Plan.Keeps depth 2 6 _
    refine hpeek.bind fun t ↦ .ite (htake.bind fun _ ↦ .pure _) ?_
    exact (hexpression _ (by decide)).bind fun _ ↦
      (Plan.Keeps.calling (ih (.moreExpressions close)) (Nat.le_refl 6)).bind fun _ ↦ .pure _
  | moreExpressions close =>
    show Plan.Keeps depth 5 6 _
    refine hpeek.bind fun t ↦ .ite ?_ ((hexpect _ (by decide)).bind fun _ ↦ .pure _)
    exact htake.bind fun _ ↦ (hexpression _ (by decide)).bind fun _ ↦
      (Plan.Keeps.calling (ih (.moreExpressions close)) (Nat.le_refl 6)).bind fun _ ↦ .pure _
  | pairs =>
    show Plan.Keeps depth 2 6 _
    refine hpeek.bind fun t ↦ .ite (htake.bind fun _ ↦ .pure _) ?_
    refine (hexpression _ (by decide)).bind fun _ ↦
      (hexpect _ (by decide)).bind fun _ ↦
        (hexpression _ (by decide)).bind fun _ ↦ ?_
    refine hpeek.bind fun next ↦ .ite ?_ ((hexpect _ (by decide)).bind fun _ ↦ ?_)
    · exact (Plan.Keeps.calling (ih .pairs) (by decide)).bind fun _ ↦ .pure _
    · exact (Plan.Keeps.calling (ih .pairs) (by decide)).bind fun _ ↦ .pure _
  | statement =>
    show Plan.Keeps depth 3 6 _
    refine hpeek.bind fun t ↦ ?_
    split
    · exact htake.bind fun _ ↦ (Plan.Keeps.doing (.identifier (by decide))).bind fun _ ↦
        (hexpect _ (by decide)).bind fun _ ↦
          (hexpression _ (by decide)).bind fun _ ↦
            (Plan.Keeps.doing (.skipIf _)).bind fun _ ↦ .pure _
    · refine htake.bind fun _ ↦ hpeek.bind fun next ↦ .ite ?_ ?_
      · exact (Plan.Keeps.doing (.skipIf _)).bind fun _ ↦ .pure _
      · exact (hexpression _ (by decide)).bind fun _ ↦
          (Plan.Keeps.doing (.skipIf _)).bind fun _ ↦ .pure _
    · exact (hexpression _ (by decide)).bind fun _ ↦
        (Plan.Keeps.doing (.skipIf _)).bind fun _ ↦ .pure _
  | statements inBlock =>
    show Plan.Keeps depth 4 4 _
    refine hpeek.bind fun t ↦ .ite (.pure _) ?_
    -- a statement that failed leaves a stage at which the next one can start
    exact (Plan.Keeps.attempting (ih .statement) (by decide) (by decide)).bind fun _ ↦
      (Plan.Keeps.calling (ih (.statements inBlock)) (Nat.le_refl 5)).bind fun _ ↦ .pure _
  | block brace =>
    show Plan.Keeps depth 5 6 _
    refine (Plan.Keeps.calling (ih (.statements true)) (by decide)).bind fun _ ↦
      htake.bind fun t ↦ .ite (.doing (.fail _ (by decide))) (.pure _)

end Readers

/-- Every call keeps its stages, with any bound on its depth.  By induction on the bound, with
`keeps_plan` for the step. -/
theorem Call.keeps (depth : Nat) (c : Call) : c.Keeps depth := by
  induction depth generalizing c with
  | zero =>
    intro log s h
    rw [Call.read_zero]
    exact h.visit.apart
  | succ depth ih =>
    intro log s h
    rw [Call.read_succ, Call.visits, List.append_cons]
    exact keeps_plan ih c _ s h.visit

theorem Comes.apart {α : Type} {log : List Visit} {after : Nat} {o : Outcome Unit State α}
    (h : Comes log after o) : log.Pairwise Visit.Apart := by
  cases o with
  | done v t => exact Descending.apart h
  | stop e t => exact Descending.apart h
  | exhausted => exact h

/-- In the order of time, calls of one reader find fewer and fewer tokens. -/
theorem Call.visits_apart (depth : Nat) (c : Call) (s : State) :
    (c.visits depth s).Pairwise Visit.Apart :=
  (c.keeps depth [] s ⟨.nil, by simp, by simp⟩).apart

/-! ## At the end of the input

Once no token is left, nothing can be taken but ends of the input, and five levels of depth are
enough for any call. -/

/-- Eight units of depth for each token, and five more, are enough for every call. -/
theorem Call.endsWithin {n depth : Nat} (c : Call) (h : 8 * n + 5 ≤ depth) :
    EndsWithin n (c.read depth) := by
  cases c with
  | moreParameters => exact endsWithin_moreParameters depth n (by omega)
  | expression level => exact endsWithin_expression depth n level (by omega)
  | climb level left => exact endsWithin_climb depth n level left (by omega)
  | continued way t left => exact endsWithin_continued depth n way t left (by omega)
  | operand => exact endsWithin_operand depth n (by omega)
  | conditional t => exact endsWithin_conditional depth n t (by omega)
  | expressions close => exact endsWithin_expressions depth n close (by omega)
  | moreExpressions close => exact endsWithin_moreExpressions depth n close (by omega)
  | pairs => exact endsWithin_pairs depth n (by omega)
  | statement => exact endsWithin_statement depth n (by omega)
  | statements inBlock => exact endsWithin_statements depth n inBlock (by omega)
  | block brace => exact endsWithin_block depth n brace (by omega)

theorem Moves.forward {α : Type} {least : Nat} {read : Parser α} (h : Moves least read)
    (s : State) :
    (read s).Post (fun _ t ↦ ∃ n, t.stream = s.stream.skip n)
      (fun _ t ↦ ∃ n, t.stream = s.stream.skip n) True := by
  refine (h s).imp (fun _ t ht ↦ ?_) fun _ t ht ↦ ?_
  · obtain ⟨n, -, hn⟩ := ht.skipped
    exact ⟨n, hn⟩
  · obtain ⟨n, -, hn⟩ := ht.1.skipped
    exact ⟨n, hn⟩

/-- Whatever a call does, it takes the tokens of its stream one after the other.  Done or not, it
leaves a later part of the stream. -/
theorem Call.forward (depth : Nat) (c : Call) (s : State) :
    (c.read depth s).Post (fun _ t ↦ ∃ n, t.stream = s.stream.skip n)
      (fun _ t ↦ ∃ n, t.stream = s.stream.skip n) True := by
  by_cases hfits : c.Fits
  · exact (hfits.moves depth).forward s
  cases c with
  | continued way t left =>
    cases depth with
    | zero => trivial
    | succ depth =>
      cases way with
      | operation =>
        rw [read, Parser.continued]
        cases Operator.ofKind? t.kind with
        | none => exact ⟨0, rfl⟩
        | some op =>
          exact ((moves_expression depth _).bind fun right ↦ Moves.pure _).forward s
      | call => exact ((moves_expressions depth _).bind fun arguments ↦ Moves.pure _).forward s
      | index =>
        exact ((moves_expression depth _).bind fun position ↦
          (Moves.expect _).bind fun _ ↦ Moves.pure _).forward s
  | _ => exact absurd trivial hfits

/-- A call that finds no token comes to an end, and takes nothing but ends of the input. -/
theorem Call.ends_of_pending_nil (c : Call) {s : State} (hs : s.stream.pending = []) {depth : Nat}
    (hdepth : 5 ≤ depth) :
    (c.read depth s).Post (fun _ t ↦ ∃ n, t.stream = s.stream.skip n)
      (fun _ t ↦ ∃ n, t.stream = s.stream.skip n) False := by
  have hends := c.endsWithin (n := 0) hdepth s (by rw [hs]; exact Nat.le_refl 0)
  have hforward := c.forward depth s
  cases hcases : c.read depth s with
  | done v t =>
    rw [hcases] at hforward
    exact hforward
  | stop e t =>
    rw [hcases] at hforward
    exact hforward
  | exhausted => exact absurd hcases hends

end Parser

/-- From the last token on, a stream holds nothing but ends of the input. -/
theorem Stream.kind_head_skip {s : Stream} {n : Nat} (h : s.pending.length ≤ n) :
    (s.skip n).head.kind = .eof := by
  refine head_of_pending_nil ?_
  rw [pending_skip, List.drop_eq_nil_of_le h]

/-- A cursor delivers the tokens of its stream one after the other. -/
theorem Cursor.stream_next (k : Cursor) :
    k.stream.head = k.next.1 ∧ k.stream.tail = k.next.2.stream := by
  obtain ⟨cs, p⟩ := k
  obtain hblanks | ⟨blanks, kind, rest, hblanks, hkind, hend, hcs⟩ := (Cursor.mk cs p).rest_cases
  · have hnil : (Cursor.mk [] (p.advance cs).right).stream = ⟨[], (p.advance cs).right⟩ :=
      stream_blanks (by simp) _
    rw [stream_blanks hblanks, next_blanks hblanks, hnil]
    exact ⟨rfl, rfl⟩
  · simp only at hcs
    subst hcs
    rw [stream_token hblanks hkind hend, next_token hblanks hkind hend]
    exact ⟨rfl, rfl⟩

/-- The token of number `n` that a lexer delivers.  A lexer can be asked for more tokens than there
are, and then delivers ends of the input. -/
def Lexer.delivered (l : Lexer) : Nat → Token
  | 0 => l.nextToken.1
  | n + 1 => l.nextToken.2.delivered n

theorem Lexer.delivered_eq (l : Lexer) (n : Nat) :
    l.delivered n = (l.cursor.stream.skip n).head := by
  induction n generalizing l with
  | zero => exact l.cursor.stream_next.1.symm
  | succ n ih =>
    rw [delivered, ih, Stream.skip, l.cursor.stream_next.2]
    rfl

/-! ## Whole programs -/

/-- The calls that are made to read a text, with a bound on their depth.  The bound need not be
large enough: what is shown of these calls holds in any case. -/
def visitsOf (text : String) (depth : Nat) : List Parser.Visit :=
  (Parser.Call.statements false).visits depth ⟨(Cursor.ofText text).stream, []⟩

/-- From the depth of the stream on, the bound does not matter. -/
theorem Stream.statements_of_le (s : Stream) : ∃ statements t,
    s.parse = ⟨⟨statements⟩, t.errors⟩ ∧ ∀ depth, s.depth ≤ depth →
      Parser.statements depth false ⟨s, []⟩ = .done statements t := by
  obtain ⟨statements, t, hread, -, hparse⟩ := s.parse_ends (Nat.le_refl _)
  refine ⟨statements, t, hparse, fun depth hle ↦ ?_⟩
  have hgrow : ∀ n, (Parser.statements n false).Below (Parser.statements (n + 1) false) :=
    fun n ↦ Parser.below_statements n false
  rw [Action.Below.of_le hgrow hle ⟨s, []⟩ (by simp [hread]), hread]

/-- **Reading a text comes to an end.**  From the depth of its tokens on, the reader is done, and
always with the same.  Whatever the bound on the depth, every call finds strictly fewer tokens left
than any earlier call of the same reader, or it finds none.  A call that finds none comes to an end
with a bound of five, and all that it can take are ends of the input; for the lexer, whose tokens
these are, delivers nothing else once it has come to the end of the text. -/
theorem parse_terminates (text : String) :
    (∃ statements t, parse text = ⟨⟨statements⟩, t.errors⟩ ∧
      ∀ depth, (Cursor.ofText text).stream.depth ≤ depth →
        Parser.statements depth false ⟨(Cursor.ofText text).stream, []⟩ = .done statements t) ∧
    (∀ depth, (visitsOf text depth).Pairwise fun a b ↦
      a.call.reader = b.call.reader → a.call.reader ≠ .climb → b.left < a.left ∨ b.left = 0) ∧
    (∀ depth, ∀ v ∈ visitsOf text depth, v.left = 0 →
      (∀ n, (v.state.stream.skip n).head.kind = .eof) ∧
      ∀ depth', 5 ≤ depth' →
        (v.call.read depth' v.state).Post (fun _ t ↦ ∃ n, t.stream = v.state.stream.skip n)
          (fun _ t ↦ ∃ n, t.stream = v.state.stream.skip n) False) ∧
    ∀ n, (Lexer.ofText text).delivered n = ((Cursor.ofText text).stream.skip n).head ∧
      ((tokenize text).length ≤ n + 1 → ((Lexer.ofText text).delivered n).kind = .eof) := by
  refine ⟨Stream.statements_of_le _, fun depth ↦ Parser.Call.visits_apart depth _ _,
    fun _ v _ hleft ↦ ⟨fun n ↦ ?_, fun depth hdepth ↦ ?_⟩, fun n ↦ ⟨Lexer.delivered_eq _ n, ?_⟩⟩
  · refine Stream.kind_head_skip ?_
    rw [Parser.Visit.left] at hleft
    rw [hleft]
    exact Nat.zero_le n
  · exact v.call.ends_of_pending_nil (List.eq_nil_of_length_eq_zero hleft) hdepth
  · intro hlength
    rw [tokenize, Stream.tokens, List.length_append, List.length_singleton] at hlength
    rw [Lexer.delivered_eq]
    exact Stream.kind_head_skip (Nat.le_of_succ_le_succ hlength)

end MonkeyLang
