import MonkeyLang.Proofs.Outcome
import MonkeyLang.Eval

/-!
# Evaluation without a bound

`Expr.ComesTo` and `Stmt.ComesTo` are what an evaluation comes to once its bound on the depth is
large enough.  The rules below say this of a construct in terms of its parts, so that an evaluation
can be followed without a word about bounds.

They read like the rules of a big-step semantics, and they could have been the definition of the
language.  They are theorems about the evaluation that runs.  The rules are not complete: there is
one for each construct and each end that is needed somewhere, and the others would be proved in the
same way.

A rule relates a machine before to a machine after, and so the order in which parts are evaluated
can be read off the machines in its hypotheses.
-/

set_option autoImplicit false

namespace MonkeyLang

/-- With a large enough bound, the evaluation of the expression comes to the outcome `o`.  The
outcome can be any but the one of a bound that ran out, for it is the outcome of all larger bounds
as well. -/
def Expr.ComesTo (frame : Frame) (m : Machine) (e : Expr) (o : Outcome Signal Machine Value) :
    Prop :=
  Settles (fun depth ↦ Eval.expression depth frame e) m o

/-- The same of a sequence of one statement. -/
def Stmt.ComesTo (frame : Frame) (m : Machine) (s : Stmt) (o : Outcome Signal Machine Value) :
    Prop :=
  Settles (fun depth ↦ Eval.statements depth frame .null [s]) m o

namespace Expr.ComesTo

variable {frame : Frame} {m m' m'' : Machine}

/-- A number is its value. -/
theorem int (t : Token) (n : Int64) : (Expr.int t n).ComesTo frame m (.done (.int n) m) :=
  .succ (.of_forall fun _ ↦ rfl)

/-- A name that is bound comes to what it is bound to. -/
theorem ident {id : Identifier} {v : Value} (h : m.store.lookup frame.scope id.name = some v) :
    (Expr.ident id).ComesTo frame m (.done v m) := by
  refine .succ (.of_forall fun depth ↦ ?_)
  rw [Eval.expression, Eval.lookup, h]

/-- A literal is a function at once, and nothing of its body is evaluated. -/
theorem function (t : Token) (parameters : List Identifier) (body : Block) :
    (Expr.function t parameters body).ComesTo frame m
      (.done (.function ⟨parameters.map Identifier.name, body, ⟨frame.unit, t.position⟩,
        frame.scope⟩) m) :=
  .succ (.of_forall fun _ ↦ rfl)

/-! ## Operators

With both operands evaluated, the operator decides.  An operand that stops ends the operation, and
the right one is not evaluated if it is the left one. -/

theorem unary {a : Expr} {v : Value} (ha : a.ComesTo frame m (.done v m')) (t : Token)
    (op : Operator) :
    (Expr.unary t op a).ComesTo frame m (Eval.ofExcept (applyUnary op v) m') :=
  .succ (.bind ha (.of_forall fun _ ↦ rfl))

theorem unary_stop {a : Expr} {e : Signal} (ha : a.ComesTo frame m (.stop e m')) (t : Token)
    (op : Operator) : (Expr.unary t op a).ComesTo frame m (.stop e m') :=
  .succ (.bind_stop ha)

/-- The operator is applied to both values, which can fail. -/
theorem binary {a b : Expr} {v w : Value} (ha : a.ComesTo frame m (.done v m'))
    (hb : b.ComesTo frame m' (.done w m'')) (t : Token) (op : Operator) :
    (Expr.binary t op a b).ComesTo frame m (Eval.ofExcept (applyBinary op v w) m'') :=
  .succ (.bind ha (.bind hb (.of_forall fun _ ↦ rfl)))

/-- If the left operand stops, the right one is not evaluated. -/
theorem left_stop {a : Expr} {e : Signal} (ha : a.ComesTo frame m (.stop e m')) (t : Token)
    (op : Operator) (b : Expr) : (Expr.binary t op a b).ComesTo frame m (.stop e m') :=
  .succ (.bind_stop ha)

/-- The left operand was evaluated, and its effects stay. -/
theorem right_stop {a b : Expr} {v : Value} {e : Signal} (ha : a.ComesTo frame m (.done v m'))
    (hb : b.ComesTo frame m' (.stop e m'')) (t : Token) (op : Operator) :
    (Expr.binary t op a b).ComesTo frame m (.stop e m'') :=
  .succ (.bind ha (.bind_stop hb))

/-! ## Conditionals and calls -/

theorem cond_true {c : Expr} {v : Value} (hc : c.ComesTo frame m (.done v m'))
    (hv : v.truthy = true) {ss : List Stmt} {o : Outcome Signal Machine Value}
    (hss : Settles (fun depth ↦ Eval.statements depth frame .null ss) m' o) (t brace : Token)
    (d : Option Block) : (Expr.cond t c ⟨brace, ss⟩ d).ComesTo frame m o :=
  .succ (.bind hc (.ite_pos hv hss))

theorem cond_false {c : Expr} {v : Value} (hc : c.ComesTo frame m (.done v m'))
    (hv : v.truthy = false) {ss : List Stmt} {o : Outcome Signal Machine Value}
    (hss : Settles (fun depth ↦ Eval.statements depth frame .null ss) m' o) (t brace : Token)
    (b : Block) : (Expr.cond t c b (some ⟨brace, ss⟩)).ComesTo frame m o :=
  .succ (.bind hc (.ite_neg (by rw [hv]; exact Bool.false_ne_true) hss))

/-- A call with one argument. -/
theorem call {f a : Expr} {v w : Value} (hf : f.ComesTo frame m (.done v m'))
    (ha : a.ComesTo frame m' (.done w m'')) {o : Outcome Signal Machine Value}
    (happly : Settles (fun depth ↦ Eval.apply depth v [w]) m'' o) (t : Token) :
    (Expr.call t f [a]).ComesTo frame m o := by
  have harguments : Settles (fun depth ↦ Eval.expressions depth frame [a]) m' (.done [w] m'') := by
    refine .succ ?_
    simp only [Eval.expressions]
    exact .bind ha (.bind (.succ (.of_forall fun _ ↦ rfl)) (.of_forall fun _ ↦ rfl))
  exact .succ (.bind hf (.bind harguments happly))

end Expr.ComesTo

/-! ## Statements

For sequences, because a `let` is of interest only with what comes after it. -/

namespace Stmt.ComesTo

variable {frame : Frame} {m m' : Machine}

theorem exprStmt {e : Expr} {o : Outcome Signal Machine Value} (he : e.ComesTo frame m o)
    (t : Token) : (Stmt.exprStmt t e).ComesTo frame m o := by
  obtain ⟨least, h⟩ := he
  refine .succ (.succ ⟨least, fun depth hle ↦ ?_⟩)
  show (Eval.expression depth frame e >>= pure) m = o
  rw [bind_pure]
  exact h depth hle

/-- What comes after a `return` is not run, so the outcome is a stop with the value. -/
theorem returnStmt {e : Expr} {v : Value} (he : e.ComesTo frame m (.done v m')) (t : Token) :
    (Stmt.returnStmt t (some e)).ComesTo frame m (.stop (.returned v) m') := by
  refine .succ ?_
  simp only [Eval.statements]
  refine .bind_stop (.succ ?_)
  simp only [Eval.statement]
  exact .bind he (.of_forall fun _ ↦ rfl)

/-- A `let` binds its value before the other statements run. -/
theorem letStmt_cons {e : Expr} {v : Value} (he : e.ComesTo frame m (.done v m')) (t : Token)
    (id : Identifier) {last : Value} {rest : List Stmt} {o : Outcome Signal Machine Value}
    (hrest : Settles (fun depth ↦ Eval.statements depth frame .null rest)
      { m' with store := m'.store.bind frame.scope id.name v } o) :
    Settles (fun depth ↦ Eval.statements depth frame last (.letStmt t id e :: rest)) m o := by
  refine .succ ?_
  simp only [Eval.statements]
  refine .bind (.succ ?_) hrest
  simp only [Eval.statement]
  exact .bind he (.of_forall fun _ ↦ rfl)

end Stmt.ComesTo

/-- A function runs its body in a new scope, and a `return` in it ends the call. -/
theorem Eval.settles_apply {f : Closure} {arguments : List Value}
    (hlength : f.parameters.length = arguments.length) {m : Machine}
    {o : Outcome Signal Machine Value}
    (hbody : Settles
      (fun depth ↦ Eval.statements depth ⟨m.store.size, f.origin.unit⟩ .null f.body.statements)
      { m with
        store := m.store.add ⟨Dict.insertAll [] (f.parameters.zip arguments), some f.scope⟩ } o) :
    Settles (fun depth ↦ Eval.apply depth (.function f) arguments) m
      (Eval.boundary (fun _ ↦ o) m) := by
  obtain ⟨least, h⟩ := hbody
  refine .succ ⟨least, fun depth hle ↦ ?_⟩
  show Eval.apply (depth + 1) (.function f) arguments m = _
  rw [Eval.apply, if_pos hlength, Action.bind_apply, Eval.enter]
  simp only [Eval.boundary, h depth hle]

end MonkeyLang
