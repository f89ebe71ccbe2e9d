import MonkeyLang.Proofs.Eval.Sound
import MonkeyLang.Proofs.Value.Throughout

/-!
# Genuine values

The values that evaluation makes are not just any values.  Their hashes list the keys in order, and
every function comes from a literal: the origin of the function names the program and the place,
and parameters and body are those of a function literal of that program at that place.  Such values
are `Value.Genuine code`, where `code` gives the nodes of each program.

`Eval.Genuine` says that an evaluation keeps all values in the store genuine and gives genuine
values only, and the theorems `Eval.genuine_expression`, … prove it of the code of the programs.

## Why both at once

The two parts serve one purpose, the equality of values from outside.  It compares the pairs of
hashes in the order in which they are listed, and functions by their origin, and it is right about
this only for genuine values.  The parts do not depend on each other.  They are one invariant
because a value is a mixture of hashes and functions at any depth, and what is kept throughout a
value is kept by one induction: `Value.Throughout`.

## The code of a function

A function literal in the body of a function is evaluated when the function is called, possibly
long after its program ended and while another program runs.  The frame of the call has the number
of the program that the function came from, so the function made there remembers the right one.  To
prove this, the nodes of the body have to be known as nodes of that program:
`Closure.MadeFrom.body`.

The parameter `code` is a function from numbers to nodes.  It is given from outside and does not
change during an evaluation.  When another program is read it grows (`Value.Genuine.mono`), and
what was genuine stays so.
-/

set_option autoImplicit false

namespace MonkeyLang

/-! ## Genuine values and stores -/

/-- The function was made from a literal of the program that its origin names.  The origin has the
number of a program and a place in it.  The literal there has the parameters and the body that the
function has. -/
structure Closure.MadeFrom (code : Nat → List Node) (f : Closure) : Prop where
  literal : ∃ t ids, Node.expr (.function t ids f.body) ∈ code f.origin.unit ∧
    f.origin.position = t.position ∧ f.parameters = ids.map Identifier.name
  body : f.body.nodes ⊆ code f.origin.unit

/-- The hashes in the value are in key order, and its functions come from literals.  Both
properties are needed to know what equality of values means. -/
def Value.Genuine (code : Nat → List Node) (v : Value) : Prop :=
  v.Throughout Dict.Increasing (Closure.MadeFrom code)

/-- All values that are bound in some scope are genuine.  Which scope stands in which is of no
concern. -/
def Store.Genuine (code : Nat → List Node) (s : Store) : Prop := ∀ v, s.Binds v → v.Genuine code

/-- A `return` with a genuine value, or an error. -/
def Signal.Genuine (code : Nat → List Node) : Signal → Prop
  | .returned v => v.Genuine code
  | .failed _ => True

section Genuine

variable {code code' : Nat → List Node}

/-- Code that was read goes on to be there when more code is read. -/
theorem Closure.MadeFrom.mono {f : Closure} (h : f.MadeFrom code)
    (hle : ∀ unit, code unit ⊆ code' unit) : f.MadeFrom code' := by
  obtain ⟨⟨t, ids, hnode, hposition, hparameters⟩, hbody⟩ := h
  exact ⟨⟨t, ids, hle _ hnode, hposition, hparameters⟩, List.Subset.trans hbody (hle _)⟩

theorem Value.Genuine.mono {v : Value} (h : v.Genuine code)
    (hle : ∀ unit, code unit ⊆ code' unit) : v.Genuine code' :=
  Value.Throughout.impFunctions h fun _ _ hf ↦ hf.mono hle

/-- The parts of genuine values are genuine. -/
theorem Value.hereditary_genuine : Value.Hereditary (Value.Genuine code) :=
  Value.hereditary_throughout

namespace Store.Genuine

variable {s : Store}

theorem empty : Store.empty.Genuine code := fun v hv ↦ absurd hv (not_binds_empty v)

theorem mono (h : s.Genuine code) (hle : ∀ unit, code unit ⊆ code' unit) : s.Genuine code' :=
  fun v hv ↦ (h v hv).mono hle

theorem add (h : s.Genuine code) {content : Scope}
    (hbindings : ∀ p ∈ content.bindings, p.2.Genuine code) : (s.add content).Genuine code := by
  intro v hv
  rcases hv.of_add with hold | ⟨name, hnew⟩
  · exact h v hold
  · exact hbindings _ hnew

/-- Binding a genuine value keeps a store genuine. -/
theorem bind (h : s.Genuine code) (id : ScopeId) (name : String) {v : Value}
    (hv : v.Genuine code) : (s.bind id name v).Genuine code := by
  intro w hw
  rcases hw.of_bind with hold | rfl
  · exact h w hold
  · exact hv

end Store.Genuine

namespace Eval

/-! ## Evaluations that keep values genuine -/

/-- From a genuine store on, the evaluation keeps the store genuine and the number of programs, and
ends with a genuine signal or with a result with `R`.  The number of programs is part of the
statement, because no evaluation reads one. -/
def Genuine {α : Type} (code : Nat → List Node) (R : α → Prop) (run : Eval α) : Prop :=
  ∀ m : Machine, m.store.Genuine code →
    (run m).Post (fun v n ↦ n.store.Genuine code ∧ n.units = m.units ∧ R v)
      (fun e n ↦ n.store.Genuine code ∧ n.units = m.units ∧ e.Genuine code) True

namespace Genuine

variable {α β : Type} {R : α → Prop} {S : β → Prop}

theorem pure {v : α} (h : R v) : Genuine code R (pure v) := fun _ hm ↦ ⟨hm, rfl, h⟩

theorem exhaust : Genuine code R (Action.exhaust : Eval α) := fun _ _ ↦ trivial

theorem halt {e : Signal} (h : e.Genuine code) : Genuine code R (Action.halt e : Eval α) :=
  fun _ hm ↦ ⟨hm, rfl, h⟩

theorem ofExcept {r : Except EvalError α} (h : ∀ v, r = .ok v → R v) :
    Genuine code R (ofExcept r) := by
  cases r with
  | ok v => exact pure (h v rfl)
  | error e => exact halt trivial

theorem bind {first : Eval α} {next : α → Eval β} (h : Genuine code R first)
    (hnext : ∀ v, R v → Genuine code S (next v)) : Genuine code S (first >>= next) := by
  intro m hm
  refine (h m hm).bind fun v n ⟨hn, hunits, hv⟩ ↦ ?_
  refine (hnext v hv n hn).imp ?_ ?_
  · rintro w n' ⟨hn', hunits', hw⟩
    exact ⟨hn', hunits'.trans hunits, hw⟩
  · rintro e n' ⟨hn', hunits', he⟩
    exact ⟨hn', hunits'.trans hunits, he⟩

/-- What a name is bound to is genuine, and so is a builtin function. -/
theorem lookup (frame : Frame) (text : String) :
    Genuine code (Value.Genuine code) (lookup frame text) := by
  intro m hm
  rw [Eval.lookup]
  split
  · rename_i v hv
    exact ⟨hm, rfl, hm v (Store.binds_of_lookup hv)⟩
  · split
    · exact ⟨hm, rfl, .builtin _⟩
    · exact ⟨hm, rfl, trivial⟩

theorem assign (frame : Frame) (text : String) {v : Value} (hv : v.Genuine code) :
    Genuine code (fun _ ↦ True) (assign frame text v) :=
  fun _ hm ↦ ⟨hm.bind frame.scope text hv, rfl, trivial⟩

/-- The body of a function runs as code of the program that the function comes from. -/
theorem enter (f : Closure) {vs : List Value} (hvs : ∀ v ∈ vs, v.Genuine code) :
    Genuine code (fun frame ↦ frame.unit = f.origin.unit) (enter f vs) := by
  intro m hm
  refine ⟨hm.add fun p hp ↦ ?_, rfl, rfl⟩
  rcases Dict.mem_insertAll hp with hnil | hzip
  · cases hnil
  · exact hvs p.2 (List.of_mem_zip hzip).2

theorem boundary {run : Eval Value} (h : Genuine code (Value.Genuine code) run) :
    Genuine code (Value.Genuine code) (boundary run) := by
  intro m hm
  have hrun := h m hm
  rw [Eval.boundary]
  split
  · rename_i hstop
    rw [hstop] at hrun
    exact hrun
  · exact hrun

theorem callBuiltin (b : Builtin) {vs : List Value} (hvs : ∀ v ∈ vs, v.Genuine code) :
    Genuine code (Value.Genuine code) (callBuiltin b vs) := by
  have hresult : Genuine code (Value.Genuine code) (Eval.ofExcept (b.result vs)) :=
    ofExcept fun _ hw ↦ Value.hereditary_genuine.builtin_result b hvs hw
  rw [Eval.callBuiltin]
  split
  · exact fun m hm ↦ hresult _ hm
  · exact hresult

end Genuine

theorem genuine_requireKey (v : Value) :
    Genuine code (fun _ ↦ True) (ofExcept (requireKey v)) :=
  .ofExcept fun _ _ ↦ trivial

/-! ## Every construct

The nodes of the code are nodes of the program whose number the frame has.  A literal that is
evaluated becomes a function with that number, and the place of the literal. -/

mutual

/-- The code is fixed while an expression is evaluated.  What has to be known of the expression is
that its nodes are among those of the program with the number of the frame. -/
theorem genuine_expression : ∀ depth (frame : Frame) (e : Expr), e.nodes ⊆ code frame.unit →
    Genuine code (Value.Genuine code) (expression depth frame e)
  | 0, _, _, _ => .exhaust
  | _ + 1, frame, .ident id, _ => .lookup frame id.name
  | _ + 1, _, .int _ n, _ => .pure (.int n)
  | _ + 1, _, .string _ text, _ => .pure (.string text)
  | _ + 1, _, .bool _ b, _ => .pure (.bool b)
  | depth + 1, frame, .unary _ op a, hcode => by
    rw [Expr.nodes, List.cons_subset] at hcode
    refine (genuine_expression depth frame a hcode.2).bind fun v _ ↦ ?_
    exact .ofExcept fun w hw ↦ Value.hereditary_genuine.simple (isCompound_applyUnary hw)
  | depth + 1, frame, .binary _ op a b, hcode => by
    rw [Expr.nodes, List.cons_subset, List.append_subset] at hcode
    refine (genuine_expression depth frame a hcode.2.1).bind fun v _ ↦ ?_
    refine (genuine_expression depth frame b hcode.2.2).bind fun w _ ↦ ?_
    exact .ofExcept fun u hu ↦ Value.hereditary_genuine.simple (isCompound_applyBinary hu)
  | depth + 1, frame, .cond _ c b none, hcode => by
    rw [Expr.nodes, List.cons_subset, List.append_subset, Block.nodes_eq] at hcode
    refine (genuine_expression depth frame c hcode.2.1).bind fun v _ ↦ ?_
    split
    · exact genuine_statements depth frame .null _ hcode.2.2
    · exact .pure .null
  | depth + 1, frame, .cond _ c b (some d), hcode => by
    rw [Expr.nodes, List.cons_subset, List.append_subset, List.append_subset, Block.nodes_eq,
      Block.nodes_eq] at hcode
    refine (genuine_expression depth frame c hcode.2.1).bind fun v _ ↦ ?_
    split
    · exact genuine_statements depth frame .null _ hcode.2.2.1
    · exact genuine_statements depth frame .null _ hcode.2.2.2
  | _ + 1, _, .function t ids b, hcode => by
    rw [Expr.nodes, List.cons_subset] at hcode
    exact .pure (.function ⟨⟨t, ids, hcode.1, rfl, rfl⟩, hcode.2⟩)
  | depth + 1, frame, .call _ f as, hcode => by
    rw [Expr.nodes, List.cons_subset, List.append_subset] at hcode
    refine (genuine_expression depth frame f hcode.2.1).bind fun v hv ↦ ?_
    refine (genuine_expressions depth frame as hcode.2.2).bind fun vs hvs ↦ ?_
    exact genuine_apply depth hv hvs
  | depth + 1, frame, .array _ as, hcode => by
    rw [Expr.nodes, List.cons_subset] at hcode
    exact (genuine_expressions depth frame as hcode.2).bind fun vs hvs ↦ .pure (.array hvs)
  | depth + 1, frame, .index _ a i, hcode => by
    rw [Expr.nodes, List.cons_subset, List.append_subset] at hcode
    refine (genuine_expression depth frame a hcode.2.1).bind fun v hv ↦ ?_
    refine (genuine_expression depth frame i hcode.2.2).bind fun w hw ↦ ?_
    exact .ofExcept fun u hu ↦ Value.hereditary_genuine.applyIndex hv hw hu
  | depth + 1, frame, .hash _ ps, hcode => by
    rw [Expr.nodes, List.cons_subset] at hcode
    exact (genuine_entries depth frame (.hash .nil (by simp)) ps hcode.2).bind fun es hes ↦
      .pure hes

theorem genuine_expressions : ∀ depth (frame : Frame) (es : List Expr),
    nodesOfExprs es ⊆ code frame.unit →
      Genuine code (fun vs ↦ ∀ v ∈ vs, Value.Genuine code v) (expressions depth frame es)
  | 0, _, _, _ => .exhaust
  | _ + 1, _, [], _ => .pure (by simp)
  | depth + 1, frame, e :: es, hcode => by
    rw [nodesOfExprs, List.append_subset] at hcode
    refine (genuine_expression depth frame e hcode.1).bind fun v hv ↦ ?_
    refine (genuine_expressions depth frame es hcode.2).bind fun vs hvs ↦ ?_
    exact .pure (List.forall_mem_cons.2 ⟨hv, hvs⟩)

/-- Pairs are collected in key order, whatever the order in which they are written. -/
theorem genuine_entries : ∀ depth (frame : Frame) {es : List (Key × Value)},
    (Value.hash es).Genuine code → ∀ ps : List (Expr × Expr), nodesOfPairs ps ⊆ code frame.unit →
      Genuine code (fun fs ↦ (Value.hash fs).Genuine code) (entries depth frame es ps)
  | 0, _, _, _, _, _ => .exhaust
  | _ + 1, _, _, hes, [], _ => .pure hes
  | depth + 1, frame, es, hes, (key, value) :: ps, hcode => by
    rw [nodesOfPairs, List.append_subset, List.append_subset] at hcode
    refine (genuine_expression depth frame key hcode.1).bind fun v _ ↦ ?_
    refine (genuine_requireKey v).bind fun k _ ↦ ?_
    refine (genuine_expression depth frame value hcode.2.1).bind fun w hw ↦ ?_
    refine genuine_entries depth frame ?_ ps hcode.2.2
    obtain ⟨hincreasing, hvalues⟩ := hes.entries
    refine .hash (hincreasing.insert k w) fun p hp ↦ ?_
    rcases Dict.mem_insert hp with rfl | hold
    · exact hw
    · exact hvalues p hold

theorem genuine_statement : ∀ depth (frame : Frame) (s : Stmt), s.nodes ⊆ code frame.unit →
    Genuine code (Value.Genuine code) (statement depth frame s)
  | 0, _, _, _ => .exhaust
  | depth + 1, frame, .letStmt _ id e, hcode => by
    rw [Stmt.nodes, List.cons_subset] at hcode
    refine (genuine_expression depth frame e hcode.2).bind fun v hv ↦ ?_
    exact (Genuine.assign frame id.name hv).bind fun _ _ ↦ .pure .null
  | _ + 1, _, .returnStmt _ none, _ => .halt .null
  | depth + 1, frame, .returnStmt _ (some e), hcode => by
    rw [Stmt.nodes, List.cons_subset] at hcode
    exact (genuine_expression depth frame e hcode.2).bind fun _ hv ↦ .halt hv
  | depth + 1, frame, .exprStmt _ e, hcode => by
    rw [Stmt.nodes, List.cons_subset] at hcode
    exact genuine_expression depth frame e hcode.2

theorem genuine_statements : ∀ depth (frame : Frame) {last : Value}, last.Genuine code →
    ∀ ss : List Stmt, nodesOfStmts ss ⊆ code frame.unit →
      Genuine code (Value.Genuine code) (statements depth frame last ss)
  | 0, _, _, _, _, _ => .exhaust
  | _ + 1, _, _, hlast, [], _ => .pure hlast
  | depth + 1, frame, _, _, s :: ss, hcode => by
    rw [nodesOfStmts, List.append_subset] at hcode
    refine (genuine_statement depth frame s hcode.1).bind fun v hv ↦ ?_
    exact genuine_statements depth frame hv ss hcode.2

/-- The body of a function is code of the program that its origin names, which may be another one
than the program of the call. -/
theorem genuine_apply : ∀ depth {f : Value}, f.Genuine code → ∀ {vs : List Value},
    (∀ v ∈ vs, v.Genuine code) → Genuine code (Value.Genuine code) (apply depth f vs)
  | 0, _, _, _, _ => .exhaust
  | depth + 1, .function f, hf, vs, hvs => by
    have hmade : f.MadeFrom code := hf.of_mem_closures f List.mem_cons_self
    rw [apply]
    split
    · refine (Genuine.enter f hvs).bind fun frame hframe ↦ ?_
      -- the body is code of the program that the function was made in, not of the caller's
      refine (genuine_statements depth frame .null _ ?_).boundary
      rw [← Block.nodes_eq, hframe]
      exact hmade.body
    · exact .halt trivial
  | _ + 1, .builtin b, _, _, hvs => .callBuiltin b hvs
  | _ + 1, .int _, _, _, _ | _ + 1, .bool _, _, _, _ | _ + 1, .string _, _, _, _
  | _ + 1, .array _, _, _, _ | _ + 1, .hash _, _, _, _ | _ + 1, .null, _, _, _ => .halt trivial

end

end Eval

/-! ## Whole programs -/

/-- Evaluating a program keeps everything genuine, if the code has its nodes under its number.  No
program is read on the way. -/
theorem Reading.genuine_eval (depth : Nat) (scope : ScopeId) {r : Reading} {m : Machine}
    (hm : m.store.Genuine code) (hcode : r.program.nodes ⊆ code r.number) :
    (r.eval depth scope m).Post
      (fun v n ↦ n.store.Genuine code ∧ n.units = m.units ∧ v.Genuine code)
      (fun _ n ↦ n.store.Genuine code ∧ n.units = m.units ∧ True) True := by
  have hstatements := Eval.genuine_statements depth ⟨scope, r.number⟩ .null r.program.statements
    hcode m hm
  exact hstatements.unwound fun _ _ h ↦ h

end Genuine

end MonkeyLang
