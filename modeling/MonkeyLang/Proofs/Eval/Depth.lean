import MonkeyLang.Proofs.Outcome
import MonkeyLang.Session

/-!
# The bound on the depth of a run

A larger bound changes nothing about a run that ends: `Eval.below_expression`, …, and `below_run`
for whole texts.  So every run settles, on the outcome that it has with any large enough bound or
on having none.

There is no bound that is large enough for all programs, as some run for ever.  This is the
difference to the readers of programs, for which a bound can be computed from the text.  So
statements about what a program does either hold with every bound, or they are about what it
settles on; a program that runs for ever settles on being exhausted, with every bound, and that is
an outcome like others here.

The end of a program differs from that of its statements in one thing: a `return` outside of all
functions ends the program with its value.  Facts about programs are facts about their statements
with this added at the end, once for runs that are compared and once for single ones.
-/

set_option autoImplicit false

namespace MonkeyLang

open MonkeyLang.Action

namespace Eval

/-- The end of a call with a larger bound. -/
theorem below_boundary {run run' : Eval Value} (h : Below run run') :
    Below (boundary run) (boundary run') := by
  intro m hm
  have hne : run m ≠ .exhausted := by
    intro hexhausted
    rw [boundary, hexhausted] at hm
    exact hm rfl
  rw [boundary, boundary, h m hne]

mutual

/-- With one unit more, an evaluation that comes to an end comes to the same end, in the same
machine.  By recursion on the bound, together with all that an expression contains or calls. -/
theorem below_expression : ∀ depth frame e,
    Below (expression depth frame e) (expression (depth + 1) frame e)
  | 0, _, _ => .exhaust _
  | _ + 1, _, .ident _ | _ + 1, _, .int _ _ | _ + 1, _, .string _ _ | _ + 1, _, .bool _ _
  | _ + 1, _, .function _ _ _ => .refl _
  | depth + 1, frame, .unary _ _ a => .bind (below_expression depth frame a) fun _ ↦ .refl _
  | depth + 1, frame, .binary _ _ a b =>
    .bind (below_expression depth frame a) fun _ ↦
      .bind (below_expression depth frame b) fun _ ↦ .refl _
  | depth + 1, frame, .cond _ c b none =>
    .bind (below_expression depth frame c) fun _ ↦
      .ite (below_statements depth frame .null b.statements) (.refl _)
  | depth + 1, frame, .cond _ c b (some d) =>
    .bind (below_expression depth frame c) fun _ ↦
      .ite (below_statements depth frame .null b.statements)
        (below_statements depth frame .null d.statements)
  | depth + 1, frame, .call _ f as =>
    .bind (below_expression depth frame f) fun v ↦
      .bind (below_expressions depth frame as) fun vs ↦ below_apply depth v vs
  | depth + 1, frame, .array _ as => .bind (below_expressions depth frame as) fun _ ↦ .refl _
  | depth + 1, frame, .index _ a i =>
    .bind (below_expression depth frame a) fun _ ↦
      .bind (below_expression depth frame i) fun _ ↦ .refl _
  | depth + 1, frame, .hash _ ps => .bind (below_entries depth frame [] ps) fun _ ↦ .refl _

theorem below_expressions : ∀ depth frame es,
    Below (expressions depth frame es) (expressions (depth + 1) frame es)
  | 0, _, _ => .exhaust _
  | _ + 1, _, [] => .refl _
  | depth + 1, frame, e :: es =>
    .bind (below_expression depth frame e) fun _ ↦
      .bind (below_expressions depth frame es) fun _ ↦ .refl _

theorem below_entries : ∀ depth frame collected ps,
    Below (entries depth frame collected ps) (entries (depth + 1) frame collected ps)
  | 0, _, _, _ => .exhaust _
  | _ + 1, _, _, [] => .refl _
  | depth + 1, frame, _, (k, v) :: ps =>
    .bind (below_expression depth frame k) fun _ ↦ .bind (.refl _) fun _ ↦
      .bind (below_expression depth frame v) fun _ ↦ below_entries depth frame _ ps

theorem below_statement : ∀ depth frame s,
    Below (statement depth frame s) (statement (depth + 1) frame s)
  | 0, _, _ => .exhaust _
  | depth + 1, frame, .letStmt _ _ e => .bind (below_expression depth frame e) fun _ ↦ .refl _
  | depth + 1, frame, .returnStmt _ (some e) =>
    .bind (below_expression depth frame e) fun _ ↦ .refl _
  | _ + 1, _, .returnStmt _ none => .refl _
  | depth + 1, frame, .exprStmt _ e => below_expression depth frame e

theorem below_statements : ∀ depth frame last ss,
    Below (statements depth frame last ss) (statements (depth + 1) frame last ss)
  | 0, _, _, _ => .exhaust _
  | _ + 1, _, _, [] => .refl _
  | depth + 1, frame, _, s :: ss =>
    .bind (below_statement depth frame s) fun v ↦ below_statements depth frame v ss

/-- The body is run with less than the bound of the call, and so with one unit more in the larger
of both. -/
theorem below_apply : ∀ depth f arguments,
    Below (apply depth f arguments) (apply (depth + 1) f arguments)
  | 0, _, _ => .exhaust _
  | depth + 1, .function f, _ =>
    .ite (.bind (.refl _) fun frame ↦
      below_boundary (below_statements depth frame .null f.body.statements)) (.refl _)
  | _ + 1, .builtin _, _ | _ + 1, .int _, _ | _ + 1, .bool _, _ | _ + 1, .string _, _
  | _ + 1, .array _, _ | _ + 1, .hash _, _ | _ + 1, .null, _ => .refl _

end

end Eval

/-! ## The end of a program

The statements of a program can end with a signal.  Its end is then `Outcome.unwound`, and the three
lemmas say that whatever is known of the ends of statements is known of programs, as long as it does
not tell a `return` from an end without one. -/

/-- What is said of two signals, each with the machine that was left: of two values that are
returned what is said of the values of programs, and of two errors what is said of those. -/
def Signal.Together (done : Value → Machine → Value → Machine → Prop)
    (stop : EvalError → Machine → EvalError → Machine → Prop) :
    Signal → Machine → Signal → Machine → Prop
  | .returned v, m, .returned w, m' => done v m w m'
  | .failed e, m, .failed e', m' => stop e m e' m'
  | _, _, _, _ => False

/-- Two programs end together if their statements do. -/
theorem Outcome.Together.unwound {done : Value → Machine → Value → Machine → Prop}
    {stop : EvalError → Machine → EvalError → Machine → Prop}
    {o o' : Outcome Signal Machine Value} (h : o.Together done (Signal.Together done stop) o') :
    o.unwound.Together done stop o'.unwound := by
  obtain ⟨v, m, w, m', rfl, rfl, hvw⟩ | ⟨signal, m, signal', m', rfl, rfl, hsignal⟩ |
    ⟨rfl, rfl⟩ := h.inv
  · exact hvw
  · cases signal with
    | returned v =>
      cases signal' with
      | returned w => exact hsignal
      | failed e' => exact hsignal.elim
    | failed e =>
      cases signal' with
      | returned w => exact hsignal.elim
      | failed e' => exact hsignal
  · exact trivial

/-- What holds of the statements of a program, with a `return` as good as an end, holds of it. -/
theorem Outcome.Post.unwound {done : Value → Machine → Prop} {stop : Signal → Machine → Prop}
    {exhausted : Prop} {o : Outcome Signal Machine Value} (h : o.Post done stop exhausted)
    (hreturned : ∀ v m, stop (.returned v) m → done v m) :
    o.unwound.Post done (fun e m ↦ stop (.failed e) m) exhausted := by
  cases o with
  | done v m => exact h
  | stop signal m =>
    cases signal with
    | returned v => exact hreturned v m h
    | failed e => exact h
  | exhausted => exact h

theorem Outcome.unwound_ne_exhausted {o : Outcome Signal Machine Value}
    (h : o.unwound ≠ .exhausted) : o ≠ .exhausted := by
  rintro rfl
  exact h rfl

/-! ## Whole programs -/

namespace Program

/-- Run a program in a scope and leave a `return` outside all functions as the signal that it is.
Statements are run with the number that the program was given.  The machine counts it before they
start. -/
def evalSignals (depth : Nat) (scope : ScopeId) (p : Program) : Eval Value := fun m ↦
  Eval.statements depth ⟨scope, m.units⟩ .null p.statements { m with units := m.units + 1 }

/-- A program ends as its statements do, apart from a `return`. -/
theorem eval_eq_unwound (depth : Nat) (scope : ScopeId) (p : Program) (m : Machine) :
    p.eval depth scope m = (p.evalSignals depth scope m).unwound := rfl

theorem below_evalSignals (depth : Nat) (scope : ScopeId) (p : Program) :
    Below (p.evalSignals depth scope) (p.evalSignals (depth + 1) scope) :=
  fun m ↦ Eval.below_statements depth ⟨scope, m.units⟩ .null p.statements _

theorem below_eval (depth : Nat) (scope : ScopeId) (p : Program) :
    (p.eval depth scope).Below (p.eval (depth + 1) scope) := by
  intro m hm
  rw [eval_eq_unwound] at hm ⊢
  rw [eval_eq_unwound, below_evalSignals depth scope p m (Outcome.unwound_ne_exhausted hm)]

end Program

/-! ## Whole texts -/

/-- A text with errors is not run. -/
theorem run_of_error {text : String} {errors : List ParseError}
    (h : parseProgram text = .error errors) (depth : Nat) (scope : ScopeId) (m : Machine) :
    run depth scope text m = .stop (.parse errors) m := by
  rw [run, h]

theorem run_of_ok {text : String} {p : Program} (h : parseProgram text = .ok p) (depth : Nat)
    (scope : ScopeId) (m : Machine) :
    run depth scope text m = (p.eval depth scope m).mapReason .eval := by
  rw [run, h]

/-- A larger bound changes nothing about a text that ends. -/
theorem below_run (depth : Nat) (scope : ScopeId) (text : String) :
    Below (run depth scope text) (run (depth + 1) scope text) := by
  intro m hm
  cases h : parseProgram text with
  | error errors => rw [run_of_error h, run_of_error h]
  | ok p =>
    rw [run_of_ok h] at hm
    rw [run_of_ok h, run_of_ok h, p.below_eval depth scope m (Outcome.mapReason_ne_exhausted hm)]

/-- A run settles as its program does. -/
theorem settles_run {text : String} {p : Program} (h : parseProgram text = .ok p)
    {scope : ScopeId} {m : Machine} {o : Outcome Signal Machine Value}
    (ho : Settles (fun depth ↦ p.evalSignals depth scope) m o) :
    Settles (fun depth ↦ run depth scope text) m (o.unwound.mapReason .eval) := by
  obtain ⟨least, hleast⟩ := ho
  refine ⟨least, fun depth hle ↦ ?_⟩
  have hsignals : p.evalSignals depth scope m = o := hleast depth hle
  exact (run_of_ok h depth scope m).trans (by rw [Program.eval_eq_unwound, hsignals])

end MonkeyLang
