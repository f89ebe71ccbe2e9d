import MonkeyLang.Proofs.Parse.Depth

/-!
# The calls that readers make

A reader calls other readers, and what it does in between depends on what they read.  This file
makes the calls visible.

* `Call` is a call of one of the readers that recurse, with its arguments.  It fits if the tables
  provide for it, and then it moves forward.
* `Plan` is what a reader does, with its calls left open.  `Call.plan` is the plan of every reader,
  and `Call.read_succ` says that a reader is its plan, with calls that have one unit of the bound
  less.
* `Call.visits` lists the calls of a run in the order of time, each with the state that it starts
  in: the call itself, and then the calls that are made on its behalf.

## Why plans

A reader is a function from states to outcomes, and a function does not tell what it calls.  To
speak about the calls of a run, either the readers keep a record of them, or their text is written
down once more as data.  The record would be part of what runs, only to be looked at in proofs.  So
there are plans: what they say is what the readers say, `Call.read_succ` is the proof of it by
unfolding both, and if a reader changes its plan has to change with it.

Anything that is to be shown of all calls in all runs can then be shown in two steps: of the plans,
which do not recurse, and by one induction on the bound.  `MonkeyLang.Proofs.Parse.Termination` does
it for the tokens left at each call, and `MonkeyLang.Proofs.Parse.Failures` for the tables.

A plan is a tree with functions at its nodes, as the next call depends on what was read.  Its steps
are actions that call no reader, calls, and calls after which it goes on in any case.

The readers of parameters and names are not among the calls, except for the one that recurses.
They are steps of the plan of a function literal.
-/

set_option autoImplicit false

namespace MonkeyLang
namespace Parser

/-! ## Calls -/

/-- The readers that recurse.  The basic readers are not among them, and neither is `parameters`,
which does not recurse and is a step in the plan of a function literal. -/
inductive Reader where
  | moreParameters | expression | climb | continued | operand | conditional | expressions
  | moreExpressions | pairs | statement | statements | block
deriving DecidableEq

/-- A call of a reader, with its arguments.  Arguments that depend on what was read before are part
of the call: the token that was taken, the expression collected so far. -/
inductive Call where
  | moreParameters
  | expression (level : Precedence)
  | climb (level : Precedence) (left : Expr)
  | continued (way : Continuation) (t : Token) (left : Expr)
  | operand
  | conditional (t : Token)
  | expressions (close : TokenType)
  | moreExpressions (close : TokenType)
  | pairs
  | statement
  | statements (inBlock : Bool)
  | block (brace : Token)

namespace Call

/-- The reader that is called. -/
def reader : Call → Reader
  | moreParameters => .moreParameters
  | expression _ => .expression
  | climb _ _ => .climb
  | continued _ _ _ => .continued
  | operand => .operand
  | conditional _ => .conditional
  | expressions _ => .expressions
  | moreExpressions _ => .moreExpressions
  | pairs => .pairs
  | statement => .statement
  | statements _ => .statements
  | block _ => .block

/-- What the call gives if it is done. -/
abbrev Result : Call → Type
  | moreParameters => List Identifier
  | expression _ | climb _ _ | continued _ _ _ | operand | conditional _ => Expr
  | expressions _ | moreExpressions _ => List Expr
  | pairs => List (Expr × Expr)
  | statement => Stmt
  | statements _ => List Stmt
  | block _ => Block

/-- The call, with a bound on its depth. -/
def read (depth : Nat) : (c : Call) → Parser c.Result
  | moreParameters => Parser.moreParameters depth
  | expression level => Parser.expression depth level
  | climb level left => Parser.climb depth level left
  | continued way t left => Parser.continued depth way t left
  | operand => Parser.operand depth
  | conditional t => Parser.conditional depth t
  | expressions close => Parser.expressions depth close
  | moreExpressions close => Parser.moreExpressions depth close
  | pairs => Parser.pairs depth
  | statement => Parser.statement depth
  | statements inBlock => Parser.statements depth inBlock
  | block brace => Parser.block depth brace

/-- Without any depth a call does not come to an end, whichever reader it calls. -/
theorem read_zero (c : Call) : c.read 0 = Action.exhaust := by
  cases c <;> rfl

/-- A continuation is read in the way in which its token continues an expression.  Readers call
each other only like that.  Other calls could be written down but are never made, and of those
nothing is claimed. -/
def Fits : Call → Prop
  | continued way t _ => continuation? t.kind = some way
  | _ => True

/-- A call that fits moves forward. -/
theorem Fits.moves {c : Call} (h : c.Fits) (depth : Nat) : Moves 0 (c.read depth) := by
  cases c with
  | moreParameters => exact moves_moreParameters depth
  | expression level => exact (moves_expression depth level).relax
  | climb level left => exact moves_climb depth level left
  | continued way t left => exact moves_continued depth way t left h
  | operand => exact (moves_operand depth).relax
  | conditional t => exact moves_conditional depth t
  | expressions close => exact moves_expressions depth close
  | moreExpressions close => exact moves_moreExpressions depth close
  | pairs => exact moves_pairs depth
  | statement => exact (moves_statement depth).relax
  | statements inBlock => exact moves_statements depth inBlock
  | block brace => exact moves_block depth brace

end Call

/-! ## Plans -/

/-- What a reader does, with its calls left open: give a value, do something that calls no reader,
call a reader, or call one and go on in any case.  A plan has a branch for each answer that an
action or a call can give.  The state is no part of it. -/
inductive Plan (α : Type) : Type 1 where
  | give (value : α)
  | act {β : Type} (action : Parser β) (next : β → Plan α)
  | call (c : Call) (next : c.Result → Plan α)
  | attempt (c : Call) (next : Option c.Result → Plan α)

namespace Plan

variable {α β : Type}

/-- One plan after the other. -/
def andThen : Plan α → (α → Plan β) → Plan β
  | give value, f => f value
  | act action next, f => .act action fun v ↦ (next v).andThen f
  | call c next, f => .call c fun v ↦ (next v).andThen f
  | attempt c next, f => .attempt c fun v ↦ (next v).andThen f

instance : Monad Plan where
  pure := give
  bind := andThen

/-- Do something that calls no reader. -/
def doing (action : Parser α) : Plan α := act action give

/-- Call a reader. -/
def calling (c : Call) : Plan c.Result := call c give

/-- Call a reader and go on in any case. -/
def attempting (c : Call) : Plan (Option c.Result) := attempt c give

/-- What a plan does when calls are made with `enter`.  With the readers themselves for `enter`
this is what they do; with other functions it is what they would do if calls were answered
differently. -/
def run (enter : (c : Call) → Parser c.Result) : Plan α → Parser α
  | give value => pure value
  | act action next => action >>= fun v ↦ (next v).run enter
  | call c next => enter c >>= fun v ↦ (next v).run enter
  | attempt c next => Parser.attempt (enter c) >>= fun v ↦ (next v).run enter

section Run

variable (enter : (c : Call) → Parser c.Result)

@[simp]
theorem run_pure (value : α) : (pure value : Plan α).run enter = pure value := rfl

/-- Running one plan after the other. -/
@[simp]
theorem run_bind (p : Plan α) (f : α → Plan β) :
    (p >>= f).run enter = p.run enter >>= fun v ↦ (f v).run enter := by
  induction p with
  | give value => rfl
  | act action next ih =>
    show action >>= (fun v ↦ (next v >>= f).run enter) = _
    simp only [ih, run, bind_assoc]
  | call c next ih =>
    show enter c >>= (fun v ↦ (next v >>= f).run enter) = _
    simp only [ih, run, bind_assoc]
  | attempt c next ih =>
    show Parser.attempt (enter c) >>= (fun v ↦ (next v >>= f).run enter) = _
    simp only [ih, run, bind_assoc]

@[simp]
theorem run_doing (action : Parser α) : (doing action).run enter = action :=
  bind_pure action

@[simp]
theorem run_calling (c : Call) : @run (no_index c.Result) enter (calling c) = enter c :=
  bind_pure (enter c)

@[simp]
theorem run_attempting (c : Call) :
    @run (Option (no_index c.Result)) enter (attempting c) = Parser.attempt (enter c) :=
  bind_pure (Parser.attempt (enter c))

/-- A choice is made before anything is run, since what it depends on was read before. -/
@[simp]
theorem run_ite {c : Prop} [Decidable c] (p q : Plan α) :
    (if c then p else q).run enter = if c then p.run enter else q.run enter := by
  split <;> rfl

end Run

/-- The plan for the parameters of a function. -/
def parameters : Plan (List Identifier) := do
  let t ← doing peek
  if t.kind = .symbol .rightParen then
    let _ ← doing take
    pure []
  else
    let id ← doing identifier
    let rest ← calling .moreParameters
    pure (id :: rest)

end Plan

open Plan

/-- The plan of every reader.  The text of each reader over again, with the calls of readers
marked.  That it says the same is `Call.read_succ`. -/
def Call.plan : (c : Call) → Plan c.Result
  | .moreParameters => do
    let t ← doing peek
    if t.kind = .symbol .comma then
      let _ ← doing take
      let id ← doing identifier
      let rest ← calling .moreParameters
      pure (id :: rest)
    else
      let _ ← doing (expect (.symbol .rightParen))
      pure []
  | .expression level => do
    let left ← calling .operand
    calling (.climb level left)
  | .climb level left => do
    let t ← doing peek
    if level < Precedence.ofKind t.kind then
      match continuation? t.kind with
      | none => pure left
      | some way =>
        let _ ← doing take
        let longer ← calling (.continued way t left)
        calling (.climb level longer)
    else
      pure left
  | .continued .operation t left =>
    match Operator.ofKind? t.kind with
    | none => doing (Action.halt ())
    | some op => do
      let right ← calling (.expression (Precedence.ofKind t.kind))
      pure (.binary t op left right)
  | .continued .call t left => do
    let arguments ← calling (.expressions (.symbol .rightParen))
    pure (.call t left arguments)
  | .continued .index t left => do
    let position ← calling (.expression .lowest)
    let _ ← doing (expect (.symbol .rightBracket))
    pure (.index t left position)
  | .operand => do
    let t ← doing take
    match t.kind with
    | .ident name => pure (.ident ⟨t, name⟩)
    | .int digits =>
      match integer? digits with
      | some n => pure (.int t n)
      | none => doing (fail (.invalidInteger digits t.position))
    | .string text => pure (.string t text)
    | .keyword .kwTrue => pure (.bool t true)
    | .keyword .kwFalse => pure (.bool t false)
    | .symbol .bang | .symbol .minus =>
      match Operator.ofKind? t.kind with
      | none => doing (Action.halt ())
      | some op =>
        let right ← calling (.expression .unary)
        pure (.unary t op right)
    | .symbol .leftParen =>
      let inner ← calling (.expression .lowest)
      let _ ← doing (expect (.symbol .rightParen))
      pure inner
    | .keyword .kwIf => calling (.conditional t)
    | .keyword .kwFunction =>
      let _ ← doing (expect (.symbol .leftParen))
      let names ← Plan.parameters
      let brace ← doing (expect (.symbol .leftBrace))
      let body ← calling (.block brace)
      pure (.function t names body)
    | .symbol .leftBracket =>
      let elements ← calling (.expressions (.symbol .rightBracket))
      pure (.array t elements)
    | .symbol .leftBrace =>
      let entries ← calling .pairs
      pure (.hash t entries)
    | _ => doing (fail (noOperand t))
  | .conditional t => do
    let _ ← doing (expect (.symbol .leftParen))
    let condition ← calling (.expression .lowest)
    let _ ← doing (expect (.symbol .rightParen))
    let brace ← doing (expect (.symbol .leftBrace))
    let consequence ← calling (.block brace)
    let next ← doing peek
    if next.kind = .keyword .kwElse then
      let _ ← doing take
      let brace ← doing (expect (.symbol .leftBrace))
      let alternative ← calling (.block brace)
      pure (.cond t condition consequence (some alternative))
    else
      pure (.cond t condition consequence none)
  | .expressions close => do
    let t ← doing peek
    if t.type = close then
      let _ ← doing take
      pure []
    else
      let first ← calling (.expression .lowest)
      let rest ← calling (.moreExpressions close)
      pure (first :: rest)
  | .moreExpressions close => do
    let t ← doing peek
    if t.kind = .symbol .comma then
      let _ ← doing take
      let next ← calling (.expression .lowest)
      let rest ← calling (.moreExpressions close)
      pure (next :: rest)
    else
      let _ ← doing (expect close)
      pure []
  | .pairs => do
    let t ← doing peek
    if t.kind = .symbol .rightBrace then
      let _ ← doing take
      pure []
    else
      let key ← calling (.expression .lowest)
      let _ ← doing (expect (.symbol .colon))
      let value ← calling (.expression .lowest)
      let next ← doing peek
      if next.kind = .symbol .rightBrace then
        let rest ← calling .pairs
        pure ((key, value) :: rest)
      else
        let _ ← doing (expect (.symbol .comma))
        let rest ← calling .pairs
        pure ((key, value) :: rest)
  | .statement => do
    let t ← doing peek
    match t.kind with
    | .keyword .kwLet =>
      let _ ← doing take
      let id ← doing identifier
      let _ ← doing (expect (.symbol .assign))
      let value ← calling (.expression .lowest)
      doing (skipIf (.symbol .semicolon))
      pure (.letStmt t id value)
    | .keyword .kwReturn =>
      let _ ← doing take
      let next ← doing peek
      if next.kind = .symbol .semicolon ∨ next.kind = .symbol .rightBrace ∨ next.kind = .eof then
        doing (skipIf (.symbol .semicolon))
        pure (.returnStmt t none)
      else
        let value ← calling (.expression .lowest)
        doing (skipIf (.symbol .semicolon))
        pure (.returnStmt t (some value))
    | _ =>
      let e ← calling (.expression .lowest)
      doing (skipIf (.symbol .semicolon))
      pure (.exprStmt (Expr.token e) e)
  | .statements inBlock => do
    let t ← doing peek
    if t.kind = .eof ∨ (inBlock = true ∧ t.kind = .symbol .rightBrace) then
      pure []
    else
      let first ← attempting .statement
      let rest ← calling (.statements inBlock)
      pure (first.toList ++ rest)
  | .block brace => do
    let body ← calling (.statements true)
    let t ← doing take
    if t.kind = .eof then
      doing (fail (.unexpectedToken (.symbol .rightBrace) .eof t.position))
    else
      pure ⟨brace, body⟩

@[simp]
theorem Plan.run_parameters (depth : Nat) :
    Plan.parameters.run (Call.read depth) = Parser.parameters depth := by
  simp [Plan.parameters, Parser.parameters, Call.read]

/-- **A reader is its plan**, with calls that have one unit of the bound less. -/
theorem Call.read_succ (depth : Nat) (c : Call) :
    c.read (depth + 1) = c.plan.run (Call.read depth) := by
  cases c with
  | moreParameters => simp [plan, read, Parser.moreParameters]
  | expression level => simp [plan, read, Parser.expression]
  | climb level left =>
    simp only [plan, read, Parser.climb, run_bind, run_doing, run_ite, run_pure]
    refine bind_congr fun t ↦ ?_
    cases continuation? t.kind <;> simp [read]
  | continued way t left =>
    cases way with
    | operation =>
      simp only [plan, read, Parser.continued]
      cases Operator.ofKind? t.kind <;> simp [read]
    | call => simp [plan, read, Parser.continued]
    | index => simp [plan, read, Parser.continued]
  | operand =>
    simp only [plan, read, Parser.operand, run_bind, run_doing]
    refine bind_congr fun t ↦ ?_
    obtain ⟨kind, p⟩ := t
    cases kind with
    | int digits => cases h : integer? digits <;> simp [h]
    | symbol c => cases c <;> simp [read, Operator.ofKind?]
    | keyword k => cases k <;> simp [read]
    | _ => simp
  | conditional t => simp [plan, read, Parser.conditional]
  | expressions close => simp [plan, read, Parser.expressions]
  | moreExpressions close => simp [plan, read, Parser.moreExpressions]
  | pairs => simp [plan, read, Parser.pairs]
  | statement =>
    simp only [plan, read, Parser.statement, run_bind, run_doing]
    refine bind_congr fun t ↦ ?_
    obtain ⟨kind, p⟩ := t
    cases kind with
    | keyword k => cases k <;> simp [read]
    | _ => simp [read]
  | statements inBlock => simp [plan, read, Parser.statements]
  | block brace => simp [plan, read, Parser.block]

/-! ## Visits -/

/-- A call, and the state in which it starts.  The bound on the depth is not recorded.  What a call
does depends on it only as long as it is too small. -/
structure Visit where
  call : Call
  state : State

/-- The number of tokens before the end of the input that are left when the call starts. -/
def Visit.left (v : Visit) : Nat := v.state.stream.pending.length

/-- What `next` lists if the outcome is done, and nothing otherwise.  A call that gives up, or runs
out of depth, ends the list of its visits: what would come after it was never called. -/
def whenDone {α β : Type} (o : Outcome Unit State α) (next : α → State → List β) : List β :=
  match o with
  | .done v s => next v s
  | .stop _ _ => []
  | .exhausted => []

/-- The calls of a plan in the order of time, where `inside` lists those of one call. -/
def Plan.visits {α : Type} (enter : (c : Call) → Parser c.Result)
    (inside : Call → State → List Visit) : Plan α → State → List Visit
  | .give _, _ => []
  | .act action next, s => whenDone (action s) fun v t ↦ (next v).visits enter inside t
  | .call c next, s =>
    inside c s ++ whenDone (enter c s) fun v t ↦ (next v).visits enter inside t
  | .attempt c next, s =>
    inside c s ++ whenDone (Parser.attempt (enter c) s) fun v t ↦ (next v).visits enter inside t

/-- The calls of one plan after the other are those of the first one and then, if it is done, those
of the second. -/
theorem Plan.visits_bind {α β : Type} (enter : (c : Call) → Parser c.Result)
    (inside : Call → State → List Visit) (p : Plan α) (f : α → Plan β) (s : State) :
    (p >>= f).visits enter inside s = p.visits enter inside s ++
      whenDone (p.run enter s) fun v t ↦ (f v).visits enter inside t := by
  induction p generalizing s with
  | give value => rfl
  | act action next ih =>
    show whenDone (action s) (fun v t ↦ (next v >>= f).visits enter inside t) = _
    rw [run, Action.bind_apply, visits]
    cases action s with
    | done v t => exact ih v t
    | _ => rfl
  | call c next ih =>
    show inside c s ++ whenDone (enter c s) (fun v t ↦ (next v >>= f).visits enter inside t) = _
    rw [run, Action.bind_apply, visits, List.append_assoc]
    cases enter c s with
    | done v t => exact congrArg _ (ih v t)
    | _ => rfl
  | attempt c next ih =>
    show inside c s ++
      whenDone (Parser.attempt (enter c) s) (fun v t ↦ (next v >>= f).visits enter inside t) = _
    rw [run, Action.bind_apply, visits, List.append_assoc]
    cases Parser.attempt (enter c) s with
    | done v t => exact congrArg _ (ih v t)
    | _ => rfl

/-- The calls of a run with a bound on its depth, in the order of time: the call itself, and then
those that its plan makes.  Calls are nested, and a call comes before those inside it. -/
def Call.visits : Nat → Call → State → List Visit
  | 0, c, s => [⟨c, s⟩]
  | depth + 1, c, s => ⟨c, s⟩ :: c.plan.visits (Call.read depth) (Call.visits depth) s

end Parser
end MonkeyLang
