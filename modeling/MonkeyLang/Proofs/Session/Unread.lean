import Mathlib
import MonkeyLang.Proofs.Session.Client

/-!
# Names that nobody reads

Code reads a name where the name stands as an expression.  To be bound by a `let`, or as a
parameter, is not to be read.  A name that is read neither in a program nor in the functions that
the store holds can be bound to anything, and the program will not notice: it ends in the same way,
with the same value or error, and binds all other names to the same values (`eval_set_unread`).

Functions are values, so a run also comes to code that is not in the program.  `Store.Sound` says
that no function in the store reads the name, and evaluation keeps that.

## What may differ

What the name is bound to, in any scope.  Code may bind the name, and then both runs bind it to the
same value in the same scope; before and after that the scope may have different values for it, or
none on one side.  So the two machines agree on all other names, in all scopes, at all times:
`Store.AgreeBut`.

The functions that are reached have the same scopes on both sides, and values are equal and not
merely alike, since both runs make the same scopes in the same order.

## Builtin functions

The name of a builtin function is no exception.  It can be bound to something else, and code that
does not read it does not notice.  Code that reads it does.
-/

set_option autoImplicit false

namespace MonkeyLang

/-- The name that a node reads, whatever is below it.  Only an identifier reads a name.  A `let`
and a parameter bind one, which is no reading. -/
def Node.read? : Node → Option String
  | .expr (.ident id) => some id.name
  | _ => none

/-- The names that the nodes read. -/
def reads (nodes : List Node) : List String := nodes.filterMap Node.read?

/-- A name is not read if no node reads it. -/
theorem not_mem_reads {z : String} {nodes : List Node} :
    z ∉ reads nodes ↔ ∀ x ∈ nodes, x.read? ≠ some z := by
  simp [reads]

/-! ## Stores that agree on all other names -/

/-- Scopes that stand inside the same one and bind all names but `z` to the same values. -/
structure Scope.AgreeBut (z : String) (a b : Scope) : Prop where
  outer : b.outer = a.outer
  bindings : ∀ name, name ≠ z → Dict.get? b.bindings name = Dict.get? a.bindings name

theorem Scope.AgreeBut.refl (z : String) (a : Scope) : a.AgreeBut z a := ⟨rfl, fun _ _ ↦ rfl⟩

/-- Both scopes bind one more name to the same value. -/
theorem Scope.AgreeBut.insert {z : String} {a b : Scope} (h : a.AgreeBut z b) (name : String)
    (v : Value) :
    Scope.AgreeBut z { a with bindings := Dict.insert a.bindings name v }
      { b with bindings := Dict.insert b.bindings name v } where
  outer := h.outer
  bindings other hother := by
    by_cases hname : other = name
    · rw [hname, Dict.get?_insert_self, Dict.get?_insert_self]
    · rw [Dict.get?_insert_of_ne _ _ hname, Dict.get?_insert_of_ne _ _ hname]
      exact h.bindings other hother

/-- Stores with the same scopes, which bind all names but `z` to the same values.  What the two
stores bind `z` to is left open; one of them may not bind it at all. -/
structure Store.AgreeBut (z : String) (s t : Store) : Prop where
  size : t.size = s.size
  scopes : ∀ id, Option.Rel (Scope.AgreeBut z) (s.scope? id) (t.scope? id)

namespace Store.AgreeBut

variable {z : String} {s t : Store}

/-- Binding `z` itself. -/
theorem of_bind (s : Store) (id : ScopeId) (z : String) (v : Value) :
    s.AgreeBut z (s.bind id z v) where
  size := size_bind s id z v
  scopes other := by
    rw [scope?_bind]
    cases s.scope? other with
    | none =>
      rw [Option.map_none, ite_self]
      exact .none
    | some scope =>
      split
      · refine .some ⟨rfl, fun name hname ↦ ?_⟩
        exact Dict.get?_insert_of_ne scope.bindings v hname
      · exact .some (.refl z scope)

/-- Any other name has the same value.  The names are looked up along the same scopes in both
stores. -/
theorem lookup (h : s.AgreeBut z t) (id : ScopeId) {name : String} (hname : name ≠ z) :
    t.lookup id name = s.lookup id name := by
  -- the outer scope is an older one
  induction id using Nat.strongRecOn with
  | ind id ih =>
    rw [Store.lookup, Store.lookup]
    obtain ⟨ha, hb⟩ | ⟨a, b, ha, hb, hab⟩ := optionRel_cases (h.scopes id)
    · rw [ha, hb]
    rw [ha, hb]
    dsimp only
    rw [hab.bindings name hname, hab.outer]
    cases Dict.get? a.bindings name with
    | some v => rfl
    | none =>
      cases a.outer with
      | none => rfl
      | some outer =>
        dsimp only
        split
        · exact ih outer ‹_›
        · rfl

theorem bind (h : s.AgreeBut z t) (id : ScopeId) (name : String) (v : Value) :
    (s.bind id name v).AgreeBut z (t.bind id name v) where
  size := by rw [size_bind, size_bind, h.size]
  scopes other := by
    rw [scope?_bind, scope?_bind]
    split
    · obtain ⟨ha, hb⟩ | ⟨a, b, ha, hb, hab⟩ := optionRel_cases (h.scopes other)
      · rw [ha, hb]
        exact .none
      · rw [ha, hb]
        exact .some (hab.insert name v)
    · exact h.scopes other

theorem add (h : s.AgreeBut z t) (scope : Scope) : (s.add scope).AgreeBut z (t.add scope) where
  size := by rw [size_add, size_add, h.size]
  scopes id := by
    rw [scope?_add_eq, scope?_add_eq, h.size]
    split
    · exact .some (.refl z scope)
    · exact h.scopes id

end Store.AgreeBut

/-- Machines with stores that agree on all names but `z`, and with the same printed text. -/
structure Machine.AgreeBut (z : String) (m m' : Machine) : Prop where
  store : m.store.AgreeBut z m'.store
  printed : m'.printed = m.printed

/-! ## Evaluations that do not read a name -/

namespace Eval

/-- From machines that agree on all names but `z` on, the evaluation ends in the same way and
leaves machines that do.  The functions in the first of the two stores do not read `z`.  The two
machines go side by side, and one of them carries the invariant that its functions do not read the
name.  The functions of the other one are the same. -/
def Ignores {α : Type} (z : String) (size : Nat) (run : Eval α) : Prop :=
  ∀ m m' : Machine, m.Sound (fun x ↦ x.read? ≠ some z) size → m.AgreeBut z m' →
    (run m).Together (fun v n w n' ↦ w = v ∧ n.AgreeBut z n')
      (fun e n e' n' ↦ e' = e ∧ n.AgreeBut z n') (run m')

namespace Ignores

variable {α β : Type} {z : String} {size : Nat}

theorem pure (v : α) : Ignores z size (pure v : Eval α) := fun _ _ _ h ↦ ⟨rfl, h⟩

theorem exhaust : Ignores z size (Action.exhaust : Eval α) := fun _ _ _ _ ↦ trivial

theorem halt (e : Signal) : Ignores z size (Action.halt e : Eval α) := fun _ _ _ h ↦ ⟨rfl, h⟩

theorem ofExcept (r : Except EvalError α) : Ignores z size (ofExcept r) := by
  cases r with
  | ok v => exact pure v
  | error e => exact halt _

/-- What comes next starts from a store that the first evaluation kept sound. -/
theorem bind {R : Nat → α → Prop} {first : Eval α} {next : α → Eval β}
    (h : Ignores z size first) (hkeeps : Keeps (fun x ↦ x.read? ≠ some z) size R first)
    (hnext : ∀ n, size ≤ n → ∀ v, R n v → Ignores z n (next v)) :
    Ignores z size (first >>= next) := by
  intro m m' hm hagree
  refine ((h m m' hm hagree).and_post (hkeeps m hm)).bind ?_
  rintro v n _ n' ⟨⟨rfl, hagree'⟩, hn, hv⟩
  exact hnext n.store.size hn.size_le _ hv n n' ⟨Nat.le_refl _, hn.store⟩ hagree'

theorem lookup (frame : Frame) {text : String} (htext : text ≠ z) :
    Ignores z size (lookup frame text) := by
  intro m m' _ hagree
  rw [Eval.lookup, Eval.lookup, hagree.store.lookup frame.scope htext]
  cases m.store.lookup frame.scope text with
  | some v => exact ⟨rfl, hagree⟩
  | none =>
    cases Builtin.ofName? text with
    | some b => exact ⟨rfl, hagree⟩
    | none => exact ⟨rfl, hagree⟩

theorem assign (frame : Frame) (text : String) (v : Value) :
    Ignores z size (assign frame text v) :=
  fun _ _ _ hagree ↦ ⟨rfl, hagree.store.bind frame.scope text v, hagree.printed⟩

/-- The parameters of a function may have the name `z`; they are bound to the same values on both
sides. -/
theorem enter (f : Closure) (vs : List Value) : Ignores z size (enter f vs) := by
  intro m m' _ hagree
  refine ⟨?_, hagree.store.add _, hagree.printed⟩
  rw [hagree.store.size]

theorem boundary {run : Eval Value} (h : Ignores z size run) : Ignores z size (boundary run) := by
  intro m m' hm hagree
  rw [Eval.boundary, Eval.boundary]
  obtain ⟨v, n, w, n', ho, ho', hvw⟩ | ⟨_, n, e, n', ho, ho', rfl, hstop⟩ | ⟨ho, ho'⟩ :=
    (h m m' hm hagree).inv
  · rw [ho, ho']
    exact hvw
  · rw [ho, ho']
    cases e with
    | returned v => exact ⟨rfl, hstop⟩
    | failed error => exact ⟨rfl, hstop⟩
  · rw [ho, ho']
    exact trivial

theorem callBuiltin (b : Builtin) (vs : List Value) : Ignores z size (callBuiltin b vs) := by
  have hresult : Ignores z size (Eval.ofExcept (b.result vs)) := ofExcept _
  rw [Eval.callBuiltin]
  split
  · intro m m' hm hagree
    refine hresult _ _ ⟨hm.size_le, hm.store⟩ ⟨hagree.store, ?_⟩
    dsimp only
    rw [hagree.printed]
  · exact hresult

end Ignores

/-! ## Every construct -/

variable {z : String}

mutual

/-- No node of the expression reads `z`, and no function in the store does.  Both are needed, as an
expression can call what it finds in the store. -/
theorem ignores_expression : ∀ depth {size : Nat} {frame : Frame}, frame.scope < size →
    ∀ e : Expr, (∀ x ∈ e.nodes, x.read? ≠ some z) → Ignores z size (expression depth frame e)
  | 0, _, _, _, _, _ => .exhaust
  | _ + 1, _, frame, _, .ident id, h =>
    .lookup frame fun hname ↦ h (.expr (.ident id)) List.mem_cons_self (congrArg some hname)
  | _ + 1, _, _, _, .int _ _, _ | _ + 1, _, _, _, .string _ _, _ | _ + 1, _, _, _, .bool _ _, _
  | _ + 1, _, _, _, .function _ _ _, _ => .pure _
  | depth + 1, _, _, hframe, .unary _ op a, h => by
    rw [Expr.nodes, List.forall_mem_cons] at h
    refine (ignores_expression depth hframe a h.2).bind (keeps_expression depth hframe a h.2)
      fun n hn v _ ↦ ?_
    exact .ofExcept _
  | depth + 1, _, _, hframe, .binary _ op a b, h => by
    rw [Expr.nodes, List.forall_mem_cons, List.forall_mem_append] at h
    obtain ⟨-, ha, hb⟩ := h
    refine (ignores_expression depth hframe a ha).bind (keeps_expression depth hframe a ha)
      fun n hn v _ ↦ ?_
    -- the first operand may have made scopes, and has taken none away
    have hframe' := Nat.lt_of_lt_of_le hframe hn
    refine (ignores_expression depth hframe' b hb).bind (keeps_expression depth hframe' b hb)
      fun _ _ w _ ↦ ?_
    exact .ofExcept _
  | depth + 1, _, _, hframe, .cond _ c b none, h => by
    rw [Expr.nodes, List.forall_mem_cons, List.forall_mem_append, Block.nodes_eq] at h
    obtain ⟨-, hc, hb⟩ := h
    refine (ignores_expression depth hframe c hc).bind (keeps_expression depth hframe c hc)
      fun n hn v _ ↦ ?_
    split
    · exact ignores_statements depth (Nat.lt_of_lt_of_le hframe hn) _ b.statements hb
    · exact .pure _
  | depth + 1, _, _, hframe, .cond _ c b (some d), h => by
    rw [Expr.nodes, List.forall_mem_cons, List.forall_mem_append, List.forall_mem_append,
      Block.nodes_eq, Block.nodes_eq] at h
    obtain ⟨-, hc, hb, hd⟩ := h
    refine (ignores_expression depth hframe c hc).bind (keeps_expression depth hframe c hc)
      fun n hn v _ ↦ ?_
    split
    · exact ignores_statements depth (Nat.lt_of_lt_of_le hframe hn) _ b.statements hb
    · exact ignores_statements depth (Nat.lt_of_lt_of_le hframe hn) _ d.statements hd
  | depth + 1, _, _, hframe, .call _ f as, h => by
    rw [Expr.nodes, List.forall_mem_cons, List.forall_mem_append] at h
    obtain ⟨-, hf, has⟩ := h
    refine (ignores_expression depth hframe f hf).bind (keeps_expression depth hframe f hf)
      fun n hn v hv ↦ ?_
    have hframe' := Nat.lt_of_lt_of_le hframe hn
    refine (ignores_expressions depth hframe' as has).bind (keeps_expressions depth hframe' as has)
      fun n' hn' vs hvs ↦ ?_
    -- the function was sound before the arguments were evaluated, so it is with more scopes
    exact ignores_apply depth (hv.mono hn') hvs
  | depth + 1, _, _, hframe, .array _ as, h => by
    rw [Expr.nodes, List.forall_mem_cons] at h
    refine (ignores_expressions depth hframe as h.2).bind (keeps_expressions depth hframe as h.2)
      fun n hn vs _ ↦ ?_
    exact .pure _
  | depth + 1, _, _, hframe, .index _ a i, h => by
    rw [Expr.nodes, List.forall_mem_cons, List.forall_mem_append] at h
    obtain ⟨-, ha, hi⟩ := h
    refine (ignores_expression depth hframe a ha).bind (keeps_expression depth hframe a ha)
      fun n hn v _ ↦ ?_
    have hframe' := Nat.lt_of_lt_of_le hframe hn
    refine (ignores_expression depth hframe' i hi).bind (keeps_expression depth hframe' i hi)
      fun _ _ w _ ↦ ?_
    exact .ofExcept _
  | depth + 1, _, _, hframe, .hash _ ps, h => by
    rw [Expr.nodes, List.forall_mem_cons] at h
    refine (ignores_entries depth hframe [] ps h.2).bind
      (keeps_entries depth hframe (by simp) ps h.2) fun n hn es _ ↦ ?_
    exact .pure _

theorem ignores_expressions : ∀ depth {size : Nat} {frame : Frame}, frame.scope < size →
    ∀ es : List Expr, (∀ x ∈ nodesOfExprs es, x.read? ≠ some z) →
      Ignores z size (expressions depth frame es)
  | 0, _, _, _, _, _ => .exhaust
  | _ + 1, _, _, _, [], _ => .pure _
  | depth + 1, _, _, hframe, e :: es, h => by
    rw [nodesOfExprs, List.forall_mem_append] at h
    refine (ignores_expression depth hframe e h.1).bind (keeps_expression depth hframe e h.1)
      fun n hn v _ ↦ ?_
    have hframe' := Nat.lt_of_lt_of_le hframe hn
    refine (ignores_expressions depth hframe' es h.2).bind
      (keeps_expressions depth hframe' es h.2) fun _ _ vs _ ↦ ?_
    exact .pure _

theorem ignores_entries : ∀ depth {size : Nat} {frame : Frame}, frame.scope < size →
    ∀ (es : List (Key × Value)) (ps : List (Expr × Expr)),
      (∀ x ∈ nodesOfPairs ps, x.read? ≠ some z) → Ignores z size (entries depth frame es ps)
  | 0, _, _, _, _, _, _ => .exhaust
  | _ + 1, _, _, _, _, [], _ => .pure _
  | depth + 1, _, _, hframe, es, (key, value) :: ps, h => by
    rw [nodesOfPairs, List.forall_mem_append, List.forall_mem_append] at h
    obtain ⟨hkey, hvalue, hps⟩ := h
    refine (ignores_expression depth hframe key hkey).bind (keeps_expression depth hframe key hkey)
      fun n hn v _ ↦ ?_
    refine (Ignores.ofExcept (requireKey v)).bind (keeps_requireKey v) fun n₂ hn₂ k _ ↦ ?_
    have hframe₂ := Nat.lt_of_lt_of_le hframe (Nat.le_trans hn hn₂)
    refine (ignores_expression depth hframe₂ value hvalue).bind
      (keeps_expression depth hframe₂ value hvalue) fun n₃ hn₃ w _ ↦ ?_
    exact ignores_entries depth (Nat.lt_of_lt_of_le hframe₂ hn₃) _ ps hps

theorem ignores_statement : ∀ depth {size : Nat} {frame : Frame}, frame.scope < size →
    ∀ s : Stmt, (∀ x ∈ s.nodes, x.read? ≠ some z) → Ignores z size (statement depth frame s)
  | 0, _, _, _, _, _ => .exhaust
  | depth + 1, _, frame, hframe, .letStmt _ id e, h => by
    rw [Stmt.nodes, List.forall_mem_cons] at h
    refine (ignores_expression depth hframe e h.2).bind (keeps_expression depth hframe e h.2)
      fun n hn v hv ↦ ?_
    refine (Ignores.assign frame id.name v).bind (Keeps.assign frame id.name hv) fun _ _ _ _ ↦ ?_
    exact .pure _
  | _ + 1, _, _, _, .returnStmt _ none, _ => .halt _
  | depth + 1, _, _, hframe, .returnStmt _ (some e), h => by
    rw [Stmt.nodes, List.forall_mem_cons] at h
    refine (ignores_expression depth hframe e h.2).bind (keeps_expression depth hframe e h.2)
      fun n hn v _ ↦ ?_
    exact .halt _
  | depth + 1, _, _, hframe, .exprStmt _ e, h => by
    rw [Stmt.nodes, List.forall_mem_cons] at h
    exact ignores_expression depth hframe e h.2

theorem ignores_statements : ∀ depth {size : Nat} {frame : Frame}, frame.scope < size →
    ∀ (last : Value) (ss : List Stmt), (∀ x ∈ nodesOfStmts ss, x.read? ≠ some z) →
      Ignores z size (statements depth frame last ss)
  | 0, _, _, _, _, _, _ => .exhaust
  | _ + 1, _, _, _, _, [], _ => .pure _
  | depth + 1, _, _, hframe, _, s :: ss, h => by
    rw [nodesOfStmts, List.forall_mem_append] at h
    refine (ignores_statement depth hframe s h.1).bind (keeps_statement depth hframe s h.1)
      fun n hn v _ ↦ ?_
    exact ignores_statements depth (Nat.lt_of_lt_of_le hframe hn) v ss h.2

/-- A function that is called is sound for the property that no node of its body reads `z`. -/
theorem ignores_apply : ∀ depth {size : Nat} {f : Value}, f.Sound (fun x ↦ x.read? ≠ some z) size →
    ∀ {vs : List Value}, (∀ v ∈ vs, v.Sound (fun x ↦ x.read? ≠ some z) size) →
      Ignores z size (apply depth f vs)
  | 0, _, _, _, _, _ => .exhaust
  | depth + 1, _, .function f, hf, vs, hvs => by
    have hclosure := Value.sound_function.1 hf
    rw [apply]
    split
    · refine (Ignores.enter f vs).bind (Keeps.enter hclosure.scope hvs) fun n _ frame hframe ↦ ?_
      refine (ignores_statements depth hframe _ _ ?_).boundary
      rw [← Block.nodes_eq]
      exact hclosure.body
    · exact .halt _
  | _ + 1, _, .builtin b, _, _, _ => .callBuiltin b _
  | _ + 1, _, .int _, _, _, _ | _ + 1, _, .bool _, _, _, _ | _ + 1, _, .string _, _, _, _
  | _ + 1, _, .array _, _, _, _ | _ + 1, _, .hash _, _, _, _ | _ + 1, _, .null, _, _, _ => .halt _

end

end Eval

/-! ## Whole programs -/

/-- **A binding that nobody reads does not matter.**  In a well-formed store, as all those are that
clients come to (`Client.Reaches.sound`), neither the program nor the functions that the store holds
read the name `z`.  Evaluate the program in a scope, and evaluate it there after `z` was bound to
any value.  Neither ends, or both fail with the same error, or both give the same value.  In the end
all scopes are the same and bind all names but `z` to the same values, and the same text was
printed. -/
theorem eval_set_unread {z : String} {m : Machine} (hm : m.store.WellFormed) {scope : ScopeId}
    (hscope : scope < m.store.size)
    (hheld : ∀ f, m.store.Holds f → z ∉ reads f.body.nodes) {p : Program}
    (hp : z ∉ reads p.nodes) (v : Value) :
    ∃ o o', Settles (fun depth ↦ p.eval depth scope) m o ∧
      Settles (fun depth ↦ p.eval depth scope) (m.set scope z v) o' ∧
      o.Together (fun w n w' n' ↦ w' = w ∧ n.AgreeBut z n')
        (fun e n e' n' ↦ e' = e ∧ n.AgreeBut z n') o' := by
  have hgrow : ∀ depth, (p.eval depth scope).Below (p.eval (depth + 1) scope) :=
    fun depth ↦ p.below_eval depth scope
  obtain ⟨o, ho⟩ := Settles.exists_of_grow hgrow m
  obtain ⟨o', ho'⟩ := Settles.exists_of_grow hgrow (m.set scope z v)
  refine ⟨o, o', ho, ho', ho.together ho' fun depth ↦ ?_⟩
  rw [Program.eval_eq_unwound, Program.eval_eq_unwound]
  have hframe : (Frame.mk scope m.units).scope < m.store.size := hscope
  have hignores := Eval.ignores_statements depth hframe .null p.statements (not_mem_reads.1 hp)
  refine .unwound ((hignores _ _ ?_ ?_).imp (fun _ _ _ _ hvw ↦ hvw) ?_)
  · exact ⟨Nat.le_refl _, hm, fun f hf ↦ not_mem_reads.1 (hheld f hf)⟩
  · exact ⟨.of_bind m.store scope z v, rfl⟩
  · rintro _ n signal n' ⟨rfl, hagree⟩
    cases signal with
    | returned w => exact ⟨rfl, hagree⟩
    | failed e => exact ⟨rfl, hagree⟩

/-- A client binds the name of a builtin function to a number and calls a function that does not use
it. -/
theorem eval_set_unread_len :
    ∃ c n n', Client.start.Reaches [.newScope, .run 0 "let f=fn(a)\x7ba\x7d"] c ∧
      Settles (fun depth ↦ (parse "f(1)").program.eval depth 0) c.machine (.done (.int 1) n) ∧
      Settles (fun depth ↦ (parse "f(1)").program.eval depth 0) (c.machine.set 0 "len" (.int 2))
        (.done (.int 1) n') ∧
      n.AgreeBut "len" n' := by
  have hacts : (Client.acts 10 [.newScope, .run 0 "let f=fn(a)\x7ba\x7d"] Client.start).map
      (fun c ↦ (c.handles, ((parse "f(1)").program.eval 10 0 c.machine).Post
        (fun v _ ↦ v = .int 1) (fun _ _ ↦ False) False)) = some ([0], True) := by
    cbv
    exact congrArg (fun holds ↦ some ([0], holds)) (eq_true rfl)
  obtain ⟨c, hc, hseen⟩ := Option.map_eq_some_iff.1 hacts
  obtain ⟨hhandles, hvalue⟩ := Prod.mk.inj hseen
  have hdone := of_eq_true hvalue
  obtain ⟨n, heval⟩ : ∃ n, (parse "f(1)").program.eval 10 0 c.machine = .done (.int 1) n := by
    cases heval : (parse "f(1)").program.eval 10 0 c.machine with
    | done v n =>
      rw [heval] at hdone
      exact ⟨n, congrArg (Outcome.done · n) hdone⟩
    | stop e n =>
      rw [heval] at hdone
      exact hdone.elim
    | exhausted =>
      rw [heval] at hdone
      exact hdone.elim
  have hsettles := Settles.of_ne_exhausted
    (fun depth ↦ (parse "f(1)").program.below_eval depth 0) (heval.trans_ne (by simp))
  rw [heval] at hsettles
  have hreads : reads (parse "let f=fn(a)\x7ba\x7d").program.nodes = ["a"] := by cbv
  have hsound : c.Sound fun x ↦ x.read? ≠ some "len" := by
    refine Client.Sound.start.acts ?_ hc
    rw [List.forall_mem_cons, List.forall_mem_singleton]
    exact ⟨trivial, not_mem_reads.1 (by simp [hreads])⟩
  have hp : "len" ∉ reads (parse "f(1)").program.nodes := by
    rw [show reads (parse "f(1)").program.nodes = ["f"] by cbv]
    decide
  obtain ⟨o, o', ho, ho', htogether⟩ := eval_set_unread hsound.store.wellFormed
    (hsound.handles 0 (by simp [hhandles])) (fun f hf ↦ not_mem_reads.2 (hsound.store.bodies f hf))
    hp (.int 2)
  obtain rfl := ho.unique hsettles
  cases o' with
  | done w n' =>
    obtain ⟨rfl, hagree⟩ := htogether
    exact ⟨c, n, n', ⟨10, hc⟩, hsettles, ho', hagree⟩
  | stop e n' => exact htogether.elim
  | exhausted => exact htogether.elim

end MonkeyLang
