import MonkeyLang.Outcome
import MonkeyLang.Store
import MonkeyLang.Value.Display
import MonkeyLang.Value.Operation

/-!
# Running programs

Evaluation goes through a program from left to right and from the inside out.  It stops early in
one of two ways, the signals: a `return` on its way to the nearest call, or an error on its way out.

Blocks share the scope that they stand in.  A call makes a new scope inside the one in which the
called function was made, and binds the parameters there.

The functions recurse on a bound of their depth, which is the only thing that makes them end on
programs that run forever.

A program gets a number when it is read (`Machine.keep`), and it keeps that number however often it
is evaluated (`Reading.eval`).  Every function remembers the number of the program that its literal
stands in.  So a host can tell the functions of two readings of one text apart, but not those that
two evaluations of one reading made in the same scope: see `Closure.same`.  Nothing in the language
itself depends on the numbers.
-/

set_option autoImplicit false

namespace MonkeyLang

/-! ## The state of a run -/

/-- What outlives a single run: the scopes, the text that was printed and not yet collected, and
how many programs were read.  Nothing else is shared by the runs of texts.  What is passed from run
to run in a session is a scope on this machine. -/
structure Machine where
  store : Store
  printed : String
  units : Nat

/-- The machine before any run. -/
def Machine.initial : Machine := ⟨.empty, "", 0⟩

/-- Why an evaluation stopped early.  A `return` and an error take the same way out.  They part at
the end of a call, which stops the one and lets the other pass. -/
inductive Signal where
  | returned (value : Value)
  | failed (error : EvalError)

/-- An evaluation.  What was bound and printed before an evaluation stopped stays, because the
machine is there however it ends. -/
abbrev Eval (α : Type) : Type := Action Signal Machine α

/-- Where code runs: the scope that it writes to, and the number of the program that it is part of.
The number is what function literals are made with, so that functions of different programs are
told apart. -/
structure Frame where
  scope : ScopeId
  unit : Nat

namespace Eval

open MonkeyLang.Action

/-- Stop with an error. -/
@[inline]
def fail {α : Type} (e : EvalError) : Eval α := halt (.failed e)

/-- Go on with the result of an operation on values. -/
@[inline]
def ofExcept {α : Type} : Except EvalError α → Eval α
  | .ok value => pure value
  | .error e => fail e

/-- The value of a name: a binding if there is one, else a builtin function.  So a program can bind
the name of a builtin function, and from then on it means what was bound. -/
def lookup (frame : Frame) (text : String) : Eval Value := fun m ↦
  match m.store.lookup frame.scope text with
  | some value => .done value m
  | none =>
    match Builtin.ofName? text with
    | some b => .done (.builtin b) m
    | none => .stop (.failed (.identifierNotFound text)) m

/-- Bind a name in the scope that the code runs in.  Scopes further out are never written to, also
if they bind the name. -/
def assign (frame : Frame) (text : String) (value : Value) : Eval Unit :=
  change fun m ↦ { m with store := m.store.bind frame.scope text value }

/-- Make the scope of a call: it stands inside the function's scope and binds the parameters in
order, so that of two parameters with one name the later one counts. -/
def enter (f : Closure) (arguments : List Value) : Eval Frame := fun m ↦
  .done ⟨m.store.size, f.origin.unit⟩
    { m with
      store := m.store.add ⟨Dict.insertAll [] (f.parameters.zip arguments), some f.scope⟩ }

/-- Call a builtin function.  Only `puts` has an effect: it prints each argument on a line. -/
def callBuiltin (b : Builtin) (arguments : List Value) : Eval Value := do
  if b = .puts then
    change fun m ↦
      { m with printed := arguments.foldl (fun text v ↦ text ++ v.display ++ "\n") m.printed }
  ofExcept (b.result arguments)

/-- The end of a call: a `return` inside becomes the value of the call.  An error passes through
unchanged. -/
@[inline]
def boundary (run : Eval Value) : Eval Value := fun m ↦
  match run m with
  | .stop (.returned value) m => .done value m
  | outcome => outcome

/-! ## Evaluation -/

mutual

/-- The value of an expression. -/
def expression : Nat → Frame → Expr → Eval Value
  | 0, _, _ => exhaust
  | _ + 1, frame, .ident id => lookup frame id.name
  | _ + 1, _, .int _ n => pure (.int n)
  | _ + 1, _, .string _ text => pure (.string text)
  | _ + 1, _, .bool _ b => pure (.bool b)
  | depth + 1, frame, .unary _ op operand => do
    let v ← expression depth frame operand
    ofExcept (applyUnary op v)
  | depth + 1, frame, .binary _ op left right => do
    let a ← expression depth frame left
    let b ← expression depth frame right
    ofExcept (applyBinary op a b)
  | depth + 1, frame, .cond _ condition consequence alternative => do
    let v ← expression depth frame condition
    if v.truthy then
      statements depth frame .null consequence.statements
    else
      match alternative with
      | some block => statements depth frame .null block.statements
      | none => pure .null
  | _ + 1, frame, .function t parameters body =>
    pure (.function
      { parameters := parameters.map Identifier.name
        body := body
        origin := ⟨frame.unit, t.position⟩
        scope := frame.scope })
  | depth + 1, frame, .call _ callee arguments => do
    let f ← expression depth frame callee
    let vs ← expressions depth frame arguments
    apply depth f vs
  | depth + 1, frame, .array _ elements => do
    let vs ← expressions depth frame elements
    pure (.array vs)
  | depth + 1, frame, .index _ collection position => do
    let a ← expression depth frame collection
    let b ← expression depth frame position
    ofExcept (applyIndex a b)
  | depth + 1, frame, .hash _ pairs => do
    let es ← entries depth frame [] pairs
    pure (.hash es)

/-- The values of expressions, in order.  The first one that does not come to a value ends it. -/
def expressions : Nat → Frame → List Expr → Eval (List Value)
  | 0, _, _ => exhaust
  | _ + 1, _, [] => pure []
  | depth + 1, frame, e :: rest => do
    let v ← expression depth frame e
    let vs ← expressions depth frame rest
    pure (v :: vs)

/-- The entries that pairs add to a hash.  A key is checked before its value is evaluated, and the
last value of a key stays. -/
def entries : Nat → Frame → List (Key × Value) → List (Expr × Expr) → Eval (List (Key × Value))
  | 0, _, _, _ => exhaust
  | _ + 1, _, collected, [] => pure collected
  | depth + 1, frame, collected, (key, value) :: rest => do
    let v ← expression depth frame key
    let k ← ofExcept (requireKey v)
    let w ← expression depth frame value
    entries depth frame (Dict.insert collected k w) rest

/-- Run one statement.  Its value is `null` unless it is an expression. -/
def statement : Nat → Frame → Stmt → Eval Value
  | 0, _, _ => exhaust
  | depth + 1, frame, .letStmt _ id value => do
    let v ← expression depth frame value
    assign frame id.name v
    pure .null
  | depth + 1, frame, .returnStmt _ value =>
    match value with
    | some e => do
      let v ← expression depth frame e
      halt (.returned v)
    | none => halt (.returned .null)
  | depth + 1, frame, .exprStmt _ e => expression depth frame e

/-- Run statements one after the other.  The value is that of the last one, or `last` if there is
none. -/
def statements : Nat → Frame → Value → List Stmt → Eval Value
  | 0, _, _, _ => exhaust
  | _ + 1, _, last, [] => pure last
  | depth + 1, frame, _, s :: rest => do
    let v ← statement depth frame s
    statements depth frame v rest

/-- Call a value. -/
def apply : Nat → Value → List Value → Eval Value
  | 0, _, _ => exhaust
  | depth + 1, .function f, arguments =>
    if f.parameters.length = arguments.length then do
      let frame ← enter f arguments
      boundary (statements depth frame .null f.body.statements)
    else
      fail (.wrongArity arguments.length f.parameters.length)
  | _ + 1, .builtin b, arguments => callBuiltin b arguments
  | _ + 1, v, _ => fail (.notAFunction v.type)

end

end Eval

/-! ## Whole programs -/

/-- How a program ends when its statements end in a given way.  A `return` outside all functions
ends the program with its value. -/
def Outcome.unwound : Outcome Signal Machine Value → Outcome EvalError Machine Value
  | .done value m => .done value m
  | .stop (.returned value) m => .done value m
  | .stop (.failed e) m => .stop e m
  | .exhausted => .exhausted

/-- A program as somebody keeps it who read it, with the number that it was given then. -/
structure Reading where
  number : Nat
  program : Program

/-- Give a program that was just read the next number. -/
def Machine.keep (m : Machine) (p : Program) : Reading × Machine :=
  (⟨m.units, p⟩, { m with units := m.units + 1 })

/-- Evaluate a program that was read before, in a scope.  Its literals are the same ones each
time. -/
def Reading.eval (depth : Nat) (scope : ScopeId) (r : Reading) :
    Action EvalError Machine Value := fun m ↦
  (Eval.statements depth ⟨scope, r.number⟩ .null r.program.statements m).unwound

/-- Evaluate a program in a scope right after it was read, and do not keep it. -/
def Program.eval (depth : Nat) (scope : ScopeId) (p : Program) :
    Action EvalError Machine Value := fun m ↦
  (m.keep p).1.eval depth scope (m.keep p).2

end MonkeyLang
