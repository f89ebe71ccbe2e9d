import Mathlib.Data.List.DropRight
import MonkeyLang.Proofs.Parse.Order
import MonkeyLang.Proofs.Parse.Termination
import MonkeyLang.Token.Drive

/-!
# However a lexer is driven

A lexer has two ways to deliver tokens, and only one of them takes note of the end.  Still all of
its tokens come from one sequence: `endless text`, which is the tokens of the text and then ends of
the input for ever.

A run of a lexer is seen from outside as a `Lexer.Log` of steps and answers.  `Log.delivered` is
what was delivered since the last reset, and `Log.Ended` is whether the end was noted since then.
`Lexer.Follows` says what the answer to the next step has to be, and it knows nothing of the lexer
but the log.  `Lexer.drive_follows` is the statement that all answers are of this kind.

What the lexer remembers of its log is `Lexer.Remembers`: how many tokens were delivered and
whether the end was noted.  One step keeps it (`Lexer.Remembers.step`), and so do any number of
them.

## Why a log

The answer to a step depends on all that was done before, and a specification that carried a state
of its own along would be another lexer.  A log is no such thing: it is what a user of the lexer
has seen.  That an answer follows from the log says at once that the lexer hides nothing, that two
lexers with the same log behave in the same way from there on, and that nothing before the last
reset counts.

The two ways to deliver tokens make the end ambiguous.  `nextToken` can deliver an end of the
input, and more of them, without the finite sequence coming to its end, and then the finite
sequence goes on with further ends of the input: it delivers one more, further to the right, and is
over after that.  `Log.Ended` therefore asks which step delivered the end.
-/

set_option autoImplicit false

namespace MonkeyLang

/-! ## Streams by their tokens

A stream is its list of tokens and the place of its end.  Seen from outside it is a sequence, and
the two are compared by the number of a token in it. -/

namespace Stream

theorem tokens_eq_map (s : Stream) :
    s.tokens = (List.range (s.pending.length + 1)).map fun i ↦ (s.skip i).head := by
  obtain ⟨pending, finish⟩ := s
  induction pending with
  | nil => rfl
  | cons t pending ih =>
    rw [List.length_cons, List.range_succ_eq_map, List.map_cons, List.map_map]
    exact congrArg (t :: ·) ih

/-- A stream is known when all of its tokens are. -/
theorem eq_of_heads {s t : Stream} (hs : ∀ x ∈ s.pending, x.kind ≠ .eof)
    (ht : ∀ x ∈ t.pending, x.kind ≠ .eof) (h : ∀ n, (s.skip n).head = (t.skip n).head) : s = t := by
  obtain ⟨pending, finish⟩ := s
  obtain ⟨pending', finish'⟩ := t
  have hhead := h 0
  induction pending generalizing pending' with
  | nil =>
    cases pending' with
    | nil => exact congrArg (Stream.mk []) (congrArg Token.position hhead)
    | cons y ys => exact absurd (congrArg Token.kind hhead).symm (ht y List.mem_cons_self)
  | cons x xs ih =>
    cases pending' with
    | nil => exact absurd (congrArg Token.kind hhead) (hs x List.mem_cons_self)
    | cons y ys =>
      obtain rfl : x = y := hhead
      have hrest := ih (List.forall_mem_cons.1 hs).2 ys (List.forall_mem_cons.1 ht).2
        (fun n ↦ h (n + 1)) (h 1)
      injection hrest with hxs hfinish
      rw [hxs, hfinish]

/-- After its tokens and one end of the input, a stream goes on with the next end. -/
theorem skip_pending_length (s : Stream) :
    s.skip (s.pending.length + 1) = ⟨[], s.finish.right⟩ := by
  obtain ⟨pending, finish⟩ := s
  induction pending with
  | nil => rfl
  | cons t pending ih => exact ih

end Stream

theorem tokenize_ne_nil (text : String) : tokenize text ≠ [] := List.concat_ne_nil _ _

/-- The tokens of a text, and then ends of the input for ever, on the line of the first one and each
one column further. -/
def endless (text : String) (n : Nat) : Token :=
  match (tokenize text)[n]? with
  | some t => t
  | none =>
    let finish := ((tokenize text).getLast (tokenize_ne_nil text)).position
    .eof ⟨finish.line, finish.column + (n + 1 - (tokenize text).length)⟩

/-- The endless tokens of a text are those of its stream. -/
theorem endless_eq (text : String) (n : Nat) :
    endless text n = ((Cursor.ofText text).stream.skip n).head := by
  have hlength : (tokenize text).length = (Cursor.ofText text).stream.pending.length + 1 := by
    rw [tokenize, Stream.tokens, List.length_append, List.length_singleton]
  rw [endless]
  rcases Nat.lt_or_ge n (tokenize text).length with hlt | hge
  · have hget : (tokenize text)[n]? = some ((Cursor.ofText text).stream.skip n).head := by
      rw [tokenize, Stream.tokens_eq_map, List.getElem?_map, List.getElem?_range (by omega)]
      rfl
    rw [hget]
  · have hfinish : ((tokenize text).getLast (tokenize_ne_nil text)).position =
        (Cursor.ofText text).stream.finish := by
      simp only [tokenize, Stream.tokens, List.getLast_append_singleton]
      rfl
    rw [List.getElem?_eq_none hge, Stream.head_skip_of_le (by omega), hfinish, hlength]
    simp only [Nat.add_sub_add_right]

namespace Lexer

/-! ## Logs -/

/-- The tokens that an answer delivers. -/
def Answer.delivered : Answer → List Token
  | .token (some t) => [t]
  | .tokens ts => ts
  | .token none | .restarted | .parsed _ => []

/-- The steps that take the tokens for a finite sequence. -/
def Step.isFinite : Step → Bool
  | .next | .drain => true
  | .nextToken | .reset | .parse => false

/-- Steps with their answers. -/
abbrev Log : Type := List (Step × Answer)

namespace Log

/-- The part of a log since the last reset. -/
def sinceReset (log : Log) : Log := log.rtakeWhile fun entry ↦ entry.1 ≠ .reset

/-- The tokens delivered since the last reset. -/
def delivered (log : Log) : List Token := log.sinceReset.flatMap fun entry ↦ entry.2.delivered

/-- Since the last reset, the finite sequence has delivered an end of the input. -/
def Ended (log : Log) : Prop :=
  ∃ entry ∈ log.sinceReset, entry.1.isFinite = true ∧ ∃ t ∈ entry.2.delivered, t.kind = .eof

/-- The token of number `i` among those of the text that were not delivered yet. -/
def upcoming (text : String) (log : Log) (i : Nat) : Token :=
  endless text (log.delivered.length + i)

variable {log : Log} {step : Step} {answer : Answer}

/-- A step that is no reset goes on with what came since the last one. -/
theorem sinceReset_concat (h : step ≠ .reset) :
    sinceReset (log ++ [(step, answer)]) = log.sinceReset ++ [(step, answer)] :=
  List.rtakeWhile_concat_pos _ _ _ (by simpa using h)

theorem sinceReset_reset : sinceReset (log ++ [(.reset, answer)]) = [] :=
  List.rtakeWhile_concat_neg _ _ _ (by simp)

/-- A step that is no reset adds the tokens of its answer to what was delivered. -/
theorem delivered_concat (h : step ≠ .reset) :
    delivered (log ++ [(step, answer)]) = log.delivered ++ answer.delivered := by
  rw [delivered, sinceReset_concat h, List.flatMap_append, List.flatMap_singleton]
  rfl

theorem ended_concat (h : step ≠ .reset) : Ended (log ++ [(step, answer)]) ↔
    log.Ended ∨ step.isFinite = true ∧ ∃ t ∈ answer.delivered, t.kind = .eof := by
  rw [Ended, sinceReset_concat h]
  simp only [List.mem_append, or_and_right, exists_or, List.mem_singleton, exists_eq_left]
  rfl

end Log

/-- What a step has to answer after a log. -/
inductive Follows (text : String) (log : Log) : Step → Answer → Prop
  /-- The finite sequence goes on with the next token. -/
  | next (h : ¬ log.Ended) : Follows text log .next (.token (some (log.upcoming text 0)))
  /-- The finite sequence is over. -/
  | nextEnded (h : log.Ended) : Follows text log .next (.token none)
  /-- The endless sequence always has a next token. -/
  | nextToken : Follows text log .nextToken (.token (some (log.upcoming text 0)))
  /-- All that is left of the finite sequence is the tokens up to the next end of the input. -/
  | drain (h : ¬ log.Ended) {k : Nat} (hbefore : ∀ i < k, (log.upcoming text i).kind ≠ .eof)
      (hend : (log.upcoming text k).kind = .eof) :
      Follows text log .drain (.tokens ((List.range (k + 1)).map (log.upcoming text)))
  /-- Nothing is left of it. -/
  | drainEnded (h : log.Ended) : Follows text log .drain (.tokens [])
  | reset : Follows text log .reset .restarted
  /-- What is read is what the tokens hold that were not delivered yet. -/
  | parse {s : Stream} (h : ∀ i, (s.skip i).head = log.upcoming text i) :
      Follows text log .parse (.parsed s.parse)

/-! ## What a lexer remembers -/

/-- The lexer is over the text, has delivered its tokens from the front, stands in front of the
others, and has noted the end if the log has.  The invariant relates a lexer to its log.  Its
clauses are what one needs to know of the lexer in order to tell the next answer: where its cursor
stands and whether the end was noted. -/
structure Remembers (text : String) (log : Log) (l : Lexer) : Prop where
  text_eq : l.text = text
  tokens : log.delivered = (List.range log.delivered.length).map (endless text)
  stream : l.cursor.stream = (Cursor.ofText text).stream.skip log.delivered.length
  finished : l.finished = true ↔ log.Ended

namespace Remembers

variable {text : String} {log : Log} {l l' : Lexer}

/-- A new lexer has nothing to remember. -/
theorem new (text : String) : Remembers text [] (.ofText text) :=
  ⟨rfl, rfl, rfl, by simp [Lexer.ofText, Log.Ended, Log.sinceReset]⟩

theorem reset (h : Remembers text log l) (answer : Answer) :
    Remembers text (log ++ [(.reset, answer)]) l.reset := by
  have hdelivered : Log.delivered (log ++ [(.reset, answer)]) = [] := by
    rw [Log.delivered, Log.sinceReset_reset, List.flatMap_nil]
  refine ⟨h.text_eq, ?_, ?_, ?_⟩
  · rw [hdelivered]
    rfl
  · rw [hdelivered, Lexer.reset, h.text_eq]
    rfl
  · rw [Log.Ended, Log.sinceReset_reset]
    simp [Lexer.reset, Lexer.ofText]

/-- The tokens in front of the lexer are those that were not delivered yet. -/
theorem head_skip (h : Remembers text log l) (i : Nat) :
    (l.cursor.stream.skip i).head = log.upcoming text i := by
  rw [Log.upcoming, endless_eq, h.stream, Stream.skip_skip]

/-- A step that delivers the next `k` tokens, and takes note of the end as it should. -/
theorem deliver (h : Remembers text log l) {step : Step} {answer : Answer} {k : Nat}
    (hstep : step ≠ .reset) (htext : l'.text = l.text)
    (hanswer : answer.delivered = (List.range k).map (log.upcoming text))
    (hstream : l'.cursor.stream = l.cursor.stream.skip k)
    (hfinished : l'.finished = true ↔
      log.Ended ∨ step.isFinite = true ∧ ∃ t ∈ answer.delivered, t.kind = .eof) :
    Remembers text (log ++ [(step, answer)]) l' := by
  have hlength : (Log.delivered (log ++ [(step, answer)])).length = log.delivered.length + k := by
    rw [Log.delivered_concat hstep, hanswer, List.length_append, List.length_map, List.length_range]
  refine ⟨htext.trans h.text_eq, ?_, ?_, hfinished.trans (Log.ended_concat hstep).symm⟩
  · rw [hlength, List.range_add, List.map_append, ← h.tokens, List.map_map,
      Log.delivered_concat hstep, hanswer]
    rfl
  · rw [hlength, hstream, h.stream, Stream.skip_skip]

theorem next_of_finished (h : Remembers text log l) (hl : l.finished = true) :
    Follows text log .next (l.step .next).1 ∧
      Remembers text (log ++ [(.next, (l.step .next).1)]) (l.step .next).2 := by
  have hended := h.finished.1 hl
  have hnext : l.next? = (none, l) := by rw [next?, if_pos hl]
  simp only [step, hnext]
  exact ⟨.nextEnded hended, h.deliver (k := 0) (by simp) rfl rfl rfl (by simp [hl, hended])⟩

/-- Before the end the finite sequence delivers the next token, and takes note if that is an end.
-/
theorem next_of_not_finished (h : Remembers text log l) (hl : l.finished = false) :
    Follows text log .next (l.step .next).1 ∧
      Remembers text (log ++ [(.next, (l.step .next).1)]) (l.step .next).2 := by
  have hended : ¬ log.Ended := fun hended ↦ by simp [h.finished.2 hended] at hl
  obtain ⟨hhead, htail⟩ := l.cursor.stream_next
  have hup : l.cursor.next.1 = log.upcoming text 0 := hhead.symm.trans (h.head_skip 0)
  have hnext : l.next? = (some (log.upcoming text 0), { l with
      cursor := l.cursor.next.2, finished := (log.upcoming text 0).kind == .eof }) := by
    rw [next?, if_neg (by simp [hl]), hup]
  simp only [step, hnext]
  refine ⟨.next hended, h.deliver (k := 1) (by simp) rfl rfl htail.symm ?_⟩
  simp [hended, Step.isFinite, Answer.delivered]

theorem nextToken (h : Remembers text log l) :
    Follows text log .nextToken (l.step .nextToken).1 ∧
      Remembers text (log ++ [(.nextToken, (l.step .nextToken).1)]) (l.step .nextToken).2 := by
  obtain ⟨hhead, htail⟩ := l.cursor.stream_next
  have hup : l.nextToken.1 = log.upcoming text 0 := hhead.symm.trans (h.head_skip 0)
  simp only [step, hup]
  refine ⟨.nextToken, h.deliver (k := 1) (by simp) rfl rfl htail.symm ?_⟩
  simp [Step.isFinite, Lexer.nextToken, h.finished]

theorem drain_of_finished (h : Remembers text log l) (hl : l.finished = true) :
    Follows text log .drain (l.step .drain).1 ∧
      Remembers text (log ++ [(.drain, (l.step .drain).1)]) (l.step .drain).2 := by
  have hended := h.finished.1 hl
  have hdrain : l.drain = ([], l) := by rw [drain, if_pos hl]
  simp only [step, hdrain]
  exact ⟨.drainEnded hended, h.deliver (k := 0) (by simp) rfl rfl rfl (by simp [hl, hended])⟩

/-- All that is left of the finite sequence is the tokens before the first end that was not
delivered yet, and that end. -/
theorem drain_of_not_finished (h : Remembers text log l) (hl : l.finished = false) :
    Follows text log .drain (l.step .drain).1 ∧
      Remembers text (log ++ [(.drain, (l.step .drain).1)]) (l.step .drain).2 := by
  have hended : ¬ log.Ended := fun hended ↦ by simp [h.finished.2 hended] at hl
  -- the end of the input comes after the tokens that are pending, and not earlier
  let k := l.cursor.stream.pending.length
  have hbefore : ∀ i < k, (log.upcoming text i).kind ≠ .eof := by
    intro i hi
    rw [← h.head_skip, Stream.head_skip_of_lt hi]
    exact l.cursor.kind_ne_eof_of_mem_pending _ (List.getElem_mem hi)
  have hend : (log.upcoming text k).kind = .eof := by
    rw [← h.head_skip]
    exact Stream.kind_head_skip (Nat.le_refl k)
  have hdrain : l.drain = ((List.range (k + 1)).map (log.upcoming text), { l with
      cursor := ⟨[], l.cursor.stream.finish.right⟩, finished := true }) := by
    rw [drain, if_neg (by simp [hl])]
    simp only [Stream.tokens_eq_map, h.head_skip, k]
  have hrest : (Cursor.mk [] l.cursor.stream.finish.right).stream =
      l.cursor.stream.skip (k + 1) := by
    rw [Cursor.stream_blanks (by simp)]
    exact (l.cursor.stream.skip_pending_length).symm
  simp only [step, hdrain]
  refine ⟨.drain hended hbefore hend, h.deliver (by simp) rfl rfl hrest ?_⟩
  simp only [true_iff]
  refine .inr ⟨rfl, log.upcoming text k, ?_, hend⟩
  exact List.mem_map_of_mem (List.mem_range.2 (Nat.lt_succ_self k))

/-- Reading the program that is left uses a copy of the cursor, so that the lexer stays where it
is. -/
theorem parse (h : Remembers text log l) :
    Follows text log .parse (l.step .parse).1 ∧
      Remembers text (log ++ [(.parse, (l.step .parse).1)]) (l.step .parse).2 :=
  ⟨.parse h.head_skip,
    h.deliver (k := 0) (by simp) rfl rfl rfl (by simp [step, Step.isFinite, h.finished])⟩

/-- **One step answers as it has to, and the lexer remembers it.** -/
theorem step (h : Remembers text log l) (s : Step) :
    Follows text log s (l.step s).1 ∧ Remembers text (log ++ [(s, (l.step s).1)]) (l.step s).2 := by
  cases s with
  | next =>
    cases hl : l.finished with
    | true => exact h.next_of_finished hl
    | false => exact h.next_of_not_finished hl
  | nextToken => exact h.nextToken
  | drain =>
    cases hl : l.finished with
    | true => exact h.drain_of_finished hl
    | false => exact h.drain_of_not_finished hl
  | reset => exact ⟨.reset, h.reset _⟩
  | parse => exact h.parse

/-- Any number of steps answer as they have to, each after the log of those before. -/
theorem drive (h : Remembers text log l) (steps : List Step) :
    Remembers text (log ++ steps.zip (l.drive steps).1) (l.drive steps).2 ∧
      (l.drive steps).1.length = steps.length ∧
      ∀ before s answer after, steps.zip (l.drive steps).1 = before ++ (s, answer) :: after →
        Follows text (log ++ before) s answer := by
  induction steps generalizing log l with
  | nil =>
    rw [List.zip_nil_left, List.append_nil]
    exact ⟨h, rfl, by simp⟩
  | cons s steps ih =>
    obtain ⟨hfollows, hremembers⟩ := h.step s
    obtain ⟨hlast, hlength, hlater⟩ := ih hremembers
    rw [List.append_assoc] at hlast
    refine ⟨hlast, congrArg (· + 1) hlength, fun before s' answer after heq ↦ ?_⟩
    cases before with
    | nil =>
      obtain ⟨⟨⟩, -⟩ := List.cons.inj heq
      rw [List.append_nil]
      exact hfollows
    | cons entry before =>
      obtain ⟨rfl, hrest⟩ := List.cons.inj heq
      rw [← List.singleton_append, ← List.append_assoc]
      exact hlater before s' answer after hrest

end Remembers

/-! ## Every run -/

/-- The steps with the answers of the lexer. -/
def log (l : Lexer) (steps : List Step) : Log := steps.zip (l.drive steps).1

theorem remembers_drive (text : String) (steps : List Step) :
    Remembers text ((ofText text).log steps) ((ofText text).drive steps).2 :=
  ((Remembers.new text).drive steps).1

/-- **A lexer delivers one sequence of tokens, however it is driven.**

* Each step has an answer, and the answer is the one that follows from the steps and answers before
  it since the last reset.
* What was delivered since the last reset is the beginning of the endless tokens of the text.
* A reset leaves the lexer as it was made.  Reading the program that is left does not move it, and
  what is read depends on nothing but the tokens that were not delivered yet. -/
theorem drive_follows (text : String) (steps : List Step) :
    ((ofText text).log steps).map Prod.fst = steps ∧
    (∀ before step answer after, (ofText text).log steps = before ++ (step, answer) :: after →
      Follows text before step answer) ∧
    ((ofText text).log steps).delivered =
      (List.range ((ofText text).log steps).delivered.length).map (endless text) ∧
    (((ofText text).drive steps).2.step .reset).2 = ofText text ∧
    (((ofText text).drive steps).2.step .parse).2 = ((ofText text).drive steps).2 ∧
    ∀ text' steps', (∀ i, ((ofText text').log steps').upcoming text' i =
        ((ofText text).log steps).upcoming text i) →
      (((ofText text').drive steps').2.step .parse).1 =
        (((ofText text).drive steps).2.step .parse).1 := by
  obtain ⟨hremembers, hlength, hfollows⟩ := (Remembers.new text).drive steps
  refine ⟨List.map_fst_zip (Nat.le_of_eq hlength.symm), hfollows, hremembers.tokens,
    congrArg ofText hremembers.text_eq, rfl, fun text' steps' hupcoming ↦ ?_⟩
  have hstream : ((ofText text').drive steps').2.cursor.stream =
      ((ofText text).drive steps).2.cursor.stream := by
    refine Stream.eq_of_heads (Cursor.kind_ne_eof_of_mem_pending _)
      (Cursor.kind_ne_eof_of_mem_pending _) fun i ↦ ?_
    rw [(remembers_drive text' steps').head_skip, (remembers_drive text steps).head_skip]
    exact hupcoming i
  exact congrArg (Answer.parsed ∘ Stream.parse) hstream

end Lexer

end MonkeyLang
