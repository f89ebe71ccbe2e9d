import MonkeyLang.Proofs.Parse.Depth
import MonkeyLang.Proofs.Program.Tokens

/-!
# Readers never look at places

A reader decides by the kinds of tokens alone.  The places of tokens only pass through it, into the
trees and the errors.  So if all places in a stream are moved, the readers do the same as before
and give the same trees and errors with all places moved: `Stream.parse_moved`.

Here the map of places is arbitrary.  In particular every stream is the image of the stream that
has the numbers of its tokens for places (`Stream.numbered`), and so what is read of a stream is
the image of what is read of the numbered one: `Stream.parse_eq_move_numbered`.

## Any map

A map of places need not be injective or keep any order.  Places may be forgotten, which takes all
of them to one, or turned around.  This makes the theorem useful for layout: two texts with the
same kinds of tokens have the same numbered stream, and what is read of them are two images of the
same trees.  No relation between the places of the one and the other is needed.

A stream is infinite in that the end of the input is delivered for ever, at places further and
further to the right.  To be moved means to be moved in all of these places as well, since there
may be errors about them.  A map that commutes with one step to the right moves a whole stream if
it moves its tokens and its end; the map that takes numbers to places does not need to, because it
is made from the stream.
-/

set_option autoImplicit false

namespace MonkeyLang

/-! ## Moving places -/

/-- The token at another place. -/
def Token.move (f : Position → Position) (t : Token) : Token := ⟨t.kind, f t.position⟩

@[simp]
theorem Token.kind_move (f : Position → Position) (t : Token) : (t.move f).kind = t.kind := rfl

@[simp]
theorem Token.position_move (f : Position → Position) (t : Token) :
    (t.move f).position = f t.position := rfl

@[simp]
theorem Token.type_move (f : Position → Position) (t : Token) : (t.move f).type = t.type := rfl

@[simp]
theorem Token.literal_move (f : Position → Position) (t : Token) :
    (t.move f).literal = t.literal := rfl

/-- The error at another place. -/
def ParseError.move (f : Position → Position) : ParseError → ParseError
  | unexpectedToken expected found p => unexpectedToken expected found (f p)
  | noExpression found p => noExpression found (f p)
  | invalidInteger digits p => invalidInteger digits (f p)
  | illegalToken c p => illegalToken c (f p)
  | unterminatedString p => unterminatedString (f p)

theorem ParseError.position_move (f : Position → Position) (e : ParseError) :
    (e.move f).position = f e.position := by
  cases e <;> rfl

/-- What was read, with all places moved. -/
def Parsed.move (f : Position → Position) (p : Parsed) : Parsed :=
  ⟨p.program.mapTokens (Token.move f), p.errors.map (ParseError.move f)⟩

/-- The stream `t` is `s` with all places moved, those of the ends of the input included.  To move
the ends is to move the place of each of them, which are as many as the reader asks for.  It is not
enough that the first end is moved. -/
def Stream.Moved (f : Position → Position) (s t : Stream) : Prop :=
  ∀ n, (t.skip n).head = (s.skip n).head.move f

theorem Stream.Moved.head {f : Position → Position} {s t : Stream} (h : s.Moved f t) :
    t.head = s.head.move f := h 0

theorem Stream.Moved.tail {f : Position → Position} {s t : Stream} (h : s.Moved f t) :
    s.tail.Moved f t.tail := fun n ↦ h (n + 1)

namespace Parser

/-! ## Readers side by side -/

/-- The state `t` is `s` with all places moved. -/
structure State.Moved (f : Position → Position) (s t : State) : Prop where
  stream : s.stream.Moved f t.stream
  errors : t.errors = s.errors.map (ParseError.move f)

/-- From a moved state the second reader does what the first one does, with all places moved; `g`
moves those in the value.  Two runs of readers are compared step by step.  They take the same
branch each time, since they see tokens of the same kinds. -/
def Carries {α : Type} (f : Position → Position) (g : α → α) (read other : Parser α) : Prop :=
  ∀ s t : State, s.Moved f t →
    (read s).Together (fun v s w t ↦ w = g v ∧ s.Moved f t) (fun _ s _ t ↦ s.Moved f t) (other t)

namespace Carries

variable {α β : Type} {f : Position → Position} {g : α → α} {h : β → β}

theorem pure {v w : α} (hvw : w = g v) : Carries f g (pure v) (pure w) :=
  fun _ _ hst ↦ ⟨hvw, hst⟩

theorem exhaust : Carries f g Action.exhaust Action.exhaust := fun _ _ _ ↦ trivial

theorem halt : Carries f g (Action.halt ()) (Action.halt ()) := fun _ _ hst ↦ hst

theorem peek : Carries f (Token.move f) peek peek := fun _ _ hst ↦ ⟨hst.stream.head, hst⟩

theorem take : Carries f (Token.move f) take take :=
  fun _ _ hst ↦ ⟨hst.stream.head, hst.stream.tail, hst.errors⟩

theorem fail {e e' : ParseError} (he : e' = e.move f) : Carries f g (fail e) (fail e') := by
  intro s t hst
  refine ⟨hst.stream, ?_⟩
  show t.errors ++ [e'] = (s.errors ++ [e]).map (ParseError.move f)
  rw [List.map_append, hst.errors, he]
  rfl

theorem bind {read other : Parser α} {next later : α → Parser β} (hfirst : Carries f g read other)
    (hnext : ∀ v, Carries f h (next v) (later (g v))) :
    Carries f h (read >>= next) (other >>= later) := by
  intro s t hst
  refine (hfirst s t hst).bind fun v s' w t' ⟨hw, hst'⟩ ↦ ?_
  rw [hw]
  exact hnext v s' t' hst'

theorem ite {c : Prop} [Decidable c] {read other read' other' : Parser α}
    (hread : Carries f g read other) (hread' : Carries f g read' other') :
    Carries f g (if c then read else read') (if c then other else other') := by
  split
  · exact hread
  · exact hread'

theorem expect (expected : TokenType) :
    Carries f (Token.move f) (expect expected) (expect expected) :=
  peek.bind fun _ ↦ ite take (fail rfl)

theorem skipIf (wanted : TokenType) : Carries f id (skipIf wanted) (skipIf wanted) :=
  peek.bind fun _ ↦ ite (take.bind fun _ ↦ pure rfl) (pure rfl)

theorem identifier :
    Carries f (Identifier.mapToken (Token.move f)) identifier identifier :=
  (expect .ident).bind fun _ ↦ pure rfl

/-- Both readers fail, or none of them does. -/
theorem attempt {read other : Parser α} (hread : Carries f g read other) :
    Carries f (Option.map g) (attempt read) (attempt other) := by
  intro s t hst
  have htogether := hread s t hst
  rw [Parser.attempt, Parser.attempt]
  cases hs : read s <;> cases ht : other t <;> rw [hs, ht] at htogether
  · exact ⟨congrArg some htogether.1, htogether.2⟩
  · exact htogether.elim
  · exact htogether.elim
  · exact htogether.elim
  · exact ⟨rfl, htogether⟩
  all_goals exact htogether

end Carries

/-! ## Every reader -/

section Readers

variable (f : Position → Position)

theorem carries_moreParameters (depth : Nat) :
    Carries f (List.map (Identifier.mapToken (Token.move f))) (moreParameters depth)
      (moreParameters depth) := by
  induction depth with
  | zero => exact .exhaust
  | succ depth ih =>
    rw [moreParameters]
    refine Carries.peek.bind fun t ↦ .ite ?_ ?_
    · exact Carries.take.bind fun _ ↦ Carries.identifier.bind fun id ↦ ih.bind fun rest ↦ .pure rfl
    · exact (Carries.expect _).bind fun _ ↦ .pure rfl

theorem carries_parameters (depth : Nat) :
    Carries f (List.map (Identifier.mapToken (Token.move f))) (parameters depth)
      (parameters depth) := by
  rw [parameters]
  refine Carries.peek.bind fun t ↦ .ite ?_ ?_
  · exact Carries.take.bind fun _ ↦ .pure rfl
  · exact Carries.identifier.bind fun id ↦ (carries_moreParameters f depth).bind fun rest ↦
      .pure rfl

/-- The error of a token that starts no expression moves with the token. -/
theorem noOperand_move (t : Token) : noOperand (t.move f) = (noOperand t).move f := by
  rw [noOperand, noOperand, Token.kind_move]
  cases t.kind <;> rfl

mutual

theorem carries_expression : ∀ depth level,
    Carries f (Expr.mapTokens (Token.move f)) (expression depth level) (expression depth level)
  | 0, _ => .exhaust
  | depth + 1, level => by
    rw [expression]
    exact (carries_operand depth).bind fun left ↦ carries_climb depth level left

/-- The expression collected so far holds tokens, so the second reader is called with a moved one.
-/
theorem carries_climb : ∀ depth level (left : Expr),
    Carries f (Expr.mapTokens (Token.move f)) (climb depth level left)
      (climb depth level (left.mapTokens (Token.move f)))
  | 0, _, _ => .exhaust
  | depth + 1, level, left => by
    rw [climb, climb]
    refine Carries.peek.bind fun t ↦ .ite ?_ (.pure rfl)
    simp only [Token.kind_move]
    split
    · exact .pure rfl
    · rename_i way _
      exact Carries.take.bind fun _ ↦ (carries_continued depth way t left).bind fun longer ↦
        carries_climb depth level longer

theorem carries_continued : ∀ depth way t (left : Expr),
    Carries f (Expr.mapTokens (Token.move f)) (continued depth way t left)
      (continued depth way (t.move f) (left.mapTokens (Token.move f)))
  | 0, _, _, _ => .exhaust
  | depth + 1, .operation, t, left => by
    rw [continued, continued, Token.kind_move]
    split
    · exact .halt
    · exact (carries_expression depth _).bind fun right ↦ .pure (by simp)
  | depth + 1, .call, t, left => by
    rw [continued, continued]
    exact (carries_expressions depth _).bind fun arguments ↦ .pure (by simp)
  | depth + 1, .index, t, left => by
    rw [continued, continued]
    exact (carries_expression depth _).bind fun position ↦ (Carries.expect _).bind fun _ ↦
      .pure (by simp)

theorem carries_operand : ∀ depth,
    Carries f (Expr.mapTokens (Token.move f)) (operand depth) (operand depth)
  | 0 => .exhaust
  | depth + 1 => by
    rw [operand]
    refine Carries.take.bind fun t ↦ ?_
    simp only [Token.kind_move]
    split
    · exact .pure (by simp)
    · split
      · exact .pure (by simp)
      · exact .fail rfl
    · exact .pure (by simp)
    · exact .pure (by simp)
    · exact .pure (by simp)
    · split
      · exact .halt
      · exact (carries_expression depth _).bind fun right ↦ .pure (by simp)
    · split
      · exact .halt
      · exact (carries_expression depth _).bind fun right ↦ .pure (by simp)
    · exact (carries_expression depth _).bind fun inner ↦ (Carries.expect _).bind fun _ ↦ .pure rfl
    · exact carries_conditional depth t
    · exact (Carries.expect _).bind fun _ ↦ (carries_parameters f depth).bind fun names ↦
        (Carries.expect _).bind fun brace ↦ (carries_block depth brace).bind fun body ↦
          .pure (by simp)
    · exact (carries_expressions depth _).bind fun elements ↦ .pure (by simp)
    · exact (carries_pairs depth).bind fun entries ↦ .pure (by simp)
    · exact .fail (noOperand_move f t)

theorem carries_conditional : ∀ depth t,
    Carries f (Expr.mapTokens (Token.move f)) (conditional depth t) (conditional depth (t.move f))
  | 0, _ => .exhaust
  | depth + 1, t => by
    rw [conditional, conditional]
    refine (Carries.expect _).bind fun _ ↦ (carries_expression depth _).bind fun condition ↦
      (Carries.expect _).bind fun _ ↦ (Carries.expect _).bind fun brace ↦
        (carries_block depth brace).bind fun consequence ↦ Carries.peek.bind fun next ↦
          .ite ?_ (.pure (by simp))
    exact Carries.take.bind fun _ ↦ (Carries.expect _).bind fun brace ↦
      (carries_block depth brace).bind fun alternative ↦ .pure (by simp)

theorem carries_expressions : ∀ depth close,
    Carries f (mapTokensExprs (Token.move f)) (expressions depth close) (expressions depth close)
  | 0, _ => .exhaust
  | depth + 1, close => by
    rw [expressions]
    refine Carries.peek.bind fun t ↦ .ite (Carries.take.bind fun _ ↦ .pure (by simp)) ?_
    exact (carries_expression depth _).bind fun first ↦
      (carries_moreExpressions depth close).bind fun rest ↦ .pure (by simp)

theorem carries_moreExpressions : ∀ depth close,
    Carries f (mapTokensExprs (Token.move f)) (moreExpressions depth close)
      (moreExpressions depth close)
  | 0, _ => .exhaust
  | depth + 1, close => by
    rw [moreExpressions]
    refine Carries.peek.bind fun t ↦ .ite ?_ ((Carries.expect _).bind fun _ ↦ .pure (by simp))
    exact Carries.take.bind fun _ ↦ (carries_expression depth _).bind fun next ↦
      (carries_moreExpressions depth close).bind fun rest ↦ .pure (by simp)

theorem carries_pairs : ∀ depth,
    Carries f (mapTokensPairs (Token.move f)) (pairs depth) (pairs depth)
  | 0 => .exhaust
  | depth + 1 => by
    rw [pairs]
    refine Carries.peek.bind fun t ↦ .ite (Carries.take.bind fun _ ↦ .pure (by simp)) ?_
    refine (carries_expression depth _).bind fun key ↦ (Carries.expect _).bind fun _ ↦
      (carries_expression depth _).bind fun value ↦ Carries.peek.bind fun next ↦ .ite ?_ ?_
    · exact (carries_pairs depth).bind fun rest ↦ .pure (by simp)
    · exact (Carries.expect _).bind fun _ ↦ (carries_pairs depth).bind fun rest ↦ .pure (by simp)

theorem carries_statement : ∀ depth,
    Carries f (Stmt.mapTokens (Token.move f)) (statement depth) (statement depth)
  | 0 => .exhaust
  | depth + 1 => by
    rw [statement]
    refine Carries.peek.bind fun t ↦ ?_
    simp only [Token.kind_move]
    split
    · exact Carries.take.bind fun _ ↦ Carries.identifier.bind fun id ↦
        (Carries.expect _).bind fun _ ↦ (carries_expression depth _).bind fun value ↦
          (Carries.skipIf _).bind fun _ ↦ .pure (by simp)
    · refine Carries.take.bind fun _ ↦ Carries.peek.bind fun next ↦ .ite ?_ ?_
      · exact (Carries.skipIf _).bind fun _ ↦ .pure (by simp)
      · exact (carries_expression depth _).bind fun value ↦ (Carries.skipIf _).bind fun _ ↦
          .pure (by simp)
    · exact (carries_expression depth _).bind fun e ↦ (Carries.skipIf _).bind fun _ ↦
        .pure (by simp [Expr.token_mapTokens])

theorem carries_statements : ∀ depth inBlock,
    Carries f (mapTokensStmts (Token.move f)) (statements depth inBlock) (statements depth inBlock)
  | 0, _ => .exhaust
  | depth + 1, inBlock => by
    rw [statements]
    refine Carries.peek.bind fun t ↦ .ite (.pure (by simp)) ?_
    refine (carries_statement depth).attempt.bind fun first ↦
      (carries_statements depth inBlock).bind fun rest ↦ .pure ?_
    cases first <;> simp

theorem carries_block : ∀ depth brace,
    Carries f (Block.mapTokens (Token.move f)) (block depth brace) (block depth (brace.move f))
  | 0, _ => .exhaust
  | depth + 1, brace => by
    rw [block, block]
    exact (carries_statements depth true).bind fun body ↦ Carries.take.bind fun t ↦
      .ite (.fail rfl) (.pure (by simp))

end

end Readers

end Parser

/-! ## Whole programs -/

/-- **Moving all places moves the places in what is read, and changes nothing else.** -/
theorem Stream.parse_moved {f : Position → Position} {s t : Stream} (h : s.Moved f t) :
    t.parse = s.parse.move f := by
  obtain ⟨statements, u, hread, -, hparse⟩ :=
    s.parse_ends (Nat.le_max_left s.depth t.depth)
  obtain ⟨statements', u', hread', -, hparse'⟩ :=
    t.parse_ends (Nat.le_max_right s.depth t.depth)
  have hcarries := Parser.carries_statements f (max s.depth t.depth) false ⟨s, []⟩ ⟨t, []⟩ ⟨h, rfl⟩
  rw [hread, hread'] at hcarries
  obtain ⟨hstatements, -, herrors⟩ := hcarries
  rw [hparse, hparse', hstatements, herrors]
  rfl

/-! ## Numbered tokens -/

namespace Stream

/-- Tokens of these kinds, with their numbers from `k` on for places.  The line of a number is
zero, so that it is no place of a text.  The number is in the column because an end of the input
moves on by columns. -/
def numbered (k : Nat) (kinds : List TokenKind) : Stream :=
  ⟨(kinds.zipIdx k).map fun (kind, i) ↦ ⟨kind, ⟨0, i⟩⟩, ⟨0, k + kinds.length⟩⟩

/-- Where a stream has the token of a given number.  Past the tokens these are the places of the
ends of the input. -/
def place (s : Stream) (number : Position) : Position := (s.skip number.column).head.position

theorem tail_numbered (k : Nat) (kinds : List TokenKind) :
    (numbered k kinds).tail = numbered (k + 1) kinds.tail := by
  cases kinds with
  | nil => rfl
  | cons kind kinds =>
    simp only [numbered, List.zipIdx_cons, List.map_cons, tail, List.tail_cons, List.length_cons,
      Nat.add_assoc, Nat.add_comm 1]

theorem head_numbered (k : Nat) (s : Stream) :
    (numbered k (s.pending.map Token.kind)).head = ⟨s.head.kind, ⟨0, k⟩⟩ := by
  obtain ⟨pending, finish⟩ := s
  cases pending <;> rfl

/-- After `n` tokens were taken, the one in front has the number `n`, and the kind that it has in
the stream. -/
theorem head_skip_numbered (k n : Nat) (s : Stream) :
    ((numbered k (s.pending.map Token.kind)).skip n).head = ⟨(s.skip n).head.kind, ⟨0, k + n⟩⟩ := by
  induction n generalizing k s with
  | zero => exact head_numbered k s
  | succ n ih =>
    rw [skip, skip, tail_numbered, ← List.map_tail, ← pending_tail, ih, Nat.add_assoc,
      Nat.add_comm 1]

/-- Every stream is the image of its numbered kinds. -/
theorem moved_numbered (s : Stream) : (numbered 0 (s.pending.map Token.kind)).Moved s.place s := by
  intro n
  rw [head_skip_numbered, Nat.zero_add]
  rfl

/-- **What is read of a stream is the image of what is read of its numbered kinds.** -/
theorem parse_eq_move_numbered (s : Stream) :
    s.parse = (numbered 0 (s.pending.map Token.kind)).parse.move s.place :=
  parse_moved s.moved_numbered

end Stream

end MonkeyLang
