import MonkeyLang.Proofs.Eval.Depth

/-!
# Evaluation writes to one scope only

Code that runs in a scope writes to this scope and to no other one that exists already, and there
only to names that it binds itself, outside of function literals.  Calls run in scopes of their
own, so they change nothing that was there before.

`Store.Writes scope names s t` says what may have happened on the way from `s` to `t`, and
`Eval.Within scope names run` says that nothing else happens in `run`, whichever way it ends.

## What may be written

The names are read off the code: those of its `let` statements, also in blocks, because a block has
no scope of its own.  The `let` statements in a function literal belong to the scopes of its calls.
Names are never unbound, and a name may be bound again, to any value.  That a `let` that is not
reached binds nothing is not expressed by `Writes`, which is an upper bound.  For a `let` whose
value stops early it is said separately, in `eval_writes_own_scope`.

## Calls

A call makes a scope and writes to it.  Since this scope is new, nothing that existed before is
written to: `Eval.Fresh`.  This is a statement about *all* earlier scopes, without an exception for
the one that the call stands in, and so it fits below `Within` for any scope and any names.  The
two predicates are proved together, by recursion on the bound.

An evaluation that fails, or returns early, has written what it wrote.  There is no rollback, and
the statements hold of both ends.  They say nothing about an evaluation that runs out of its bound,
since then there is no store to speak about.
-/

set_option autoImplicit false

namespace MonkeyLang

/-! ## Names bound by code -/

mutual

/-- The names that an expression binds where it stands: those of the `let` statements in it that
are not inside a function literal. -/
def Expr.lets : Expr → List String
  | .ident _ | .int _ _ | .string _ _ | .bool _ _ | .function _ _ _ => []
  | .unary _ _ operand => operand.lets
  | .binary _ _ left right => left.lets ++ right.lets
  | .cond _ condition consequence none => condition.lets ++ consequence.lets
  | .cond _ condition consequence (some alternative) =>
    condition.lets ++ (consequence.lets ++ alternative.lets)
  | .call _ callee arguments => callee.lets ++ letsOfExprs arguments
  | .array _ elements => letsOfExprs elements
  | .index _ collection position => collection.lets ++ position.lets
  | .hash _ pairs => letsOfPairs pairs

def letsOfExprs : List Expr → List String
  | [] => []
  | e :: rest => e.lets ++ letsOfExprs rest

def letsOfPairs : List (Expr × Expr) → List String
  | [] => []
  | (key, value) :: rest => key.lets ++ (value.lets ++ letsOfPairs rest)

/-- The names that a statement binds where it stands. -/
def Stmt.lets : Stmt → List String
  | .letStmt _ id value => id.name :: value.lets
  | .returnStmt _ none => []
  | .returnStmt _ (some value) => value.lets
  | .exprStmt _ expression => expression.lets

def letsOfStmts : List Stmt → List String
  | [] => []
  | s :: rest => s.lets ++ letsOfStmts rest

/-- The names that a block binds in the scope around it. -/
def Block.lets : Block → List String
  | ⟨_, statements⟩ => letsOfStmts statements

end

theorem Block.lets_eq (b : Block) : b.lets = letsOfStmts b.statements := by
  cases b
  rw [Block.lets]

/-! ## Stores

How scopes, new scopes and bindings are seen from outside.  Proofs about evaluation see the array
of scopes through these facts. -/

namespace Store

/-- What a name is bound to in one scope, whatever the scopes around it say. -/
def binding? (s : Store) (id : ScopeId) (name : String) : Option Value :=
  (s.scope? id).bind fun scope ↦ Dict.get? scope.bindings name

@[simp]
theorem size_add (s : Store) (scope : Scope) : (s.add scope).size = s.size + 1 :=
  Array.size_push scope

@[simp]
theorem size_bind (s : Store) (id : ScopeId) (name : String) (value : Value) :
    (s.bind id name value).size = s.size :=
  Array.size_modify

theorem scope?_eq_none {s : Store} {id : ScopeId} : s.scope? id = none ↔ s.size ≤ id :=
  Array.getElem?_eq_none_iff

theorem exists_scope? {s : Store} {id : ScopeId} (h : id < s.size) :
    ∃ scope, s.scope? id = some scope :=
  ⟨_, Array.getElem?_eq_getElem h⟩

theorem lt_size_of_scope? {s : Store} {id : ScopeId} {scope : Scope}
    (h : s.scope? id = some scope) : id < s.size :=
  (Array.getElem?_eq_some_iff.1 h).1

/-- All scopes of a store with a new one. -/
theorem scope?_add_eq (s : Store) (scope : Scope) (id : ScopeId) :
    (s.add scope).scope? id = if id = s.size then some scope else s.scope? id :=
  Array.getElem?_push

/-- Making a scope changes none of the others. -/
theorem scope?_add (s : Store) (scope : Scope) {id : ScopeId} (h : id < s.size) :
    (s.add scope).scope? id = s.scope? id := by
  rw [scope?, scope?, add, Array.getElem?_push_lt h, Array.getElem?_eq_getElem h]

theorem scope?_add_size (s : Store) (scope : Scope) : (s.add scope).scope? s.size = some scope :=
  Array.getElem?_push_size

/-- Binding a name changes one scope and keeps what is around it. -/
theorem scope?_bind (s : Store) (id other : ScopeId) (name : String) (value : Value) :
    (s.bind id name value).scope? other =
      if id = other then
        (s.scope? other).map fun scope ↦
          { scope with bindings := Dict.insert scope.bindings name value }
      else s.scope? other :=
  Array.getElem?_modify

/-- The store `t` can come from `s` by making scopes and by binding some of the `names` in one
scope. -/
structure Writes (scope : ScopeId) (names : List String) (s t : Store) : Prop where
  /-- No scope goes away. -/
  grows : s.size ≤ t.size
  /-- The other scopes have the same bindings and the same outer scope. -/
  others : ∀ id < s.size, id ≠ scope → t.scope? id = s.scope? id
  /-- The scope itself stands inside the same outer scope. -/
  outer : (t.scope? scope).map Scope.outer = (s.scope? scope).map Scope.outer
  /-- No name in it is unbound. -/
  bound : ∀ name, s.binding? scope name ≠ none → t.binding? scope name ≠ none
  /-- Only the names change. -/
  changed : ∀ name, t.binding? scope name ≠ s.binding? scope name → name ∈ names

namespace Writes

variable {scope : ScopeId} {names names' : List String} {s t u : Store}

theorem refl (scope : ScopeId) (names : List String) (s : Store) : s.Writes scope names s :=
  ⟨Nat.le_refl _, fun _ _ _ ↦ rfl, rfl, fun _ h ↦ h, fun _ h ↦ absurd rfl h⟩

/-- What is written in two steps was written in both. -/
theorem trans (hst : s.Writes scope names t) (htu : t.Writes scope names u) :
    s.Writes scope names u where
  grows := Nat.le_trans hst.grows htu.grows
  others id hid hne :=
    (htu.others id (Nat.lt_of_lt_of_le hid hst.grows) hne).trans (hst.others id hid hne)
  outer := htu.outer.trans hst.outer
  bound name h := htu.bound name (hst.bound name h)
  changed name h := by
    by_cases hname : t.binding? scope name = s.binding? scope name
    · exact htu.changed name (by rwa [hname])
    · exact hst.changed name hname

/-- More names may be written. -/
theorem mono (h : s.Writes scope names t) (hsub : names ⊆ names') : s.Writes scope names' t :=
  { h with changed := fun name hname ↦ hsub (h.changed name hname) }

theorem bind (s : Store) (scope : ScopeId) (name : String) (value : Value) :
    s.Writes scope [name] (s.bind scope name value) where
  grows := Nat.le_of_eq (size_bind s scope name value).symm
  others id _ hne := by rw [scope?_bind, if_neg hne.symm]
  outer := by
    rw [scope?_bind, if_pos rfl, Option.map_map]
    rfl
  bound other h := by
    rw [binding?] at h ⊢
    rw [scope?_bind, if_pos rfl]
    cases hscope : s.scope? scope with
    | none => simp [hscope] at h
    | some content =>
      by_cases hname : other = name
      · subst hname
        simp
      · simpa [hscope, Dict.get?_insert_of_ne _ _ hname] using h
  changed other h := by
    by_cases hname : other = name
    · exact List.mem_singleton.2 hname
    · refine absurd ?_ h
      rw [binding?, binding?, scope?_bind, if_pos rfl]
      cases hscope : s.scope? scope with
      | none => rfl
      | some content => simp [Dict.get?_insert_of_ne _ _ hname]

end Writes

/-- The store `t` has all scopes of `s` as they are, and possibly more of them. -/
structure Extends (s t : Store) : Prop where
  grows : s.size ≤ t.size
  same : ∀ id < s.size, t.scope? id = s.scope? id

theorem Extends.refl (s : Store) : s.Extends s := ⟨Nat.le_refl _, fun _ _ ↦ rfl⟩

theorem Extends.writes {s t : Store} (h : s.Extends t) {scope : ScopeId} (hscope : scope < s.size)
    (names : List String) : s.Writes scope names t where
  grows := h.grows
  others id hid _ := h.same id hid
  outer := by rw [h.same scope hscope]
  bound name hname := by rwa [binding?, h.same scope hscope]
  changed name hname := absurd (by rw [binding?, binding?, h.same scope hscope]) hname

/-- What is written to a new scope only extends the store. -/
theorem Writes.extends_of_add {s t : Store} {content : Scope} {names : List String}
    (h : (s.add content).Writes s.size names t) : s.Extends t where
  grows := by
    have hgrows := h.grows
    rw [size_add] at hgrows
    omega
  same id hid := by
    rw [h.others id (by rw [size_add]; omega) (Nat.ne_of_lt hid), scope?_add s content hid]

end Store

/-! ## Evaluations that write to one scope -/

namespace Eval

/-- Started in a store with this scope, the evaluation writes at most some of the `names` in it,
whichever way it ends.  The names are an upper bound, and so a sequence writes at most the names of
both its parts. -/
def Within {α : Type} (scope : ScopeId) (names : List String) (run : Eval α) : Prop :=
  ∀ m : Machine, scope < m.store.size →
    (run m).Post (fun _ m' ↦ m.store.Writes scope names m'.store)
      (fun _ m' ↦ m.store.Writes scope names m'.store) True

/-- The evaluation changes no scope that existed before, whichever way it ends. -/
def Fresh {α : Type} (run : Eval α) : Prop :=
  ∀ m : Machine, (run m).Post (fun _ m' ↦ m.store.Extends m'.store)
    (fun _ m' ↦ m.store.Extends m'.store) True

/-- An evaluation that changes no earlier scope writes to none. -/
theorem Fresh.within {α : Type} {run : Eval α} (h : Fresh run) (scope : ScopeId)
    (names : List String) : Within scope names run :=
  fun m hm ↦ (h m).imp (fun _ _ ht ↦ ht.writes hm names) fun _ _ ht ↦ ht.writes hm names

namespace Within

variable {α β : Type} {scope : ScopeId} {names names' : List String}

theorem mono {run : Eval α} (h : Within scope names run) (hsub : names ⊆ names') :
    Within scope names' run :=
  fun m hm ↦ (h m hm).imp (fun _ _ ht ↦ ht.mono hsub) fun _ _ ht ↦ ht.mono hsub

theorem pure (value : α) : Within scope names (pure value : Eval α) :=
  fun m _ ↦ .refl scope names m.store

theorem exhaust : Within scope names (Action.exhaust : Eval α) := fun _ _ ↦ trivial

theorem halt (signal : Signal) : Within scope names (Action.halt signal : Eval α) :=
  fun m _ ↦ .refl scope names m.store

theorem ofExcept (result : Except EvalError α) : Within scope names (ofExcept result) := by
  cases result with
  | ok value => exact pure value
  | error e => exact halt _

theorem bind {first : Eval α} {next : α → Eval β} (h : Within scope names first)
    (hnext : ∀ v, Within scope names (next v)) : Within scope names (first >>= next) := by
  intro m hm
  refine (h m hm).bind fun v m' hfirst ↦ ?_
  refine (hnext v m' (Nat.lt_of_lt_of_le hm hfirst.grows)).imp (fun _ _ ht ↦ ?_) fun _ _ ht ↦ ?_
  · exact hfirst.trans ht
  · exact hfirst.trans ht

theorem lookup (frame : Frame) (text : String) : Within scope names (lookup frame text) := by
  intro m _
  rw [Eval.lookup]
  split
  · exact .refl scope names m.store
  · split
    · exact .refl scope names m.store
    · exact .refl scope names m.store

theorem assign (frame : Frame) (text : String) (value : Value) :
    Within frame.scope [text] (assign frame text value) :=
  fun m _ ↦ Store.Writes.bind m.store frame.scope text value

end Within

/-! ## Calls -/

theorem fresh_ofExcept {α : Type} (result : Except EvalError α) : Fresh (ofExcept result) := by
  intro m
  cases result with
  | ok value => exact .refl m.store
  | error e => exact .refl m.store

/-- Printing leaves the store as it is. -/
theorem fresh_callBuiltin (b : Builtin) (arguments : List Value) :
    Fresh (callBuiltin b arguments) := by
  rw [callBuiltin]
  split
  · intro m
    exact fresh_ofExcept (b.result arguments) _
  · exact fresh_ofExcept (b.result arguments)

/-- A call runs in a scope that did not exist before.  A call is fresh whatever its body does,
provided that the body writes to the scope of the call only. -/
theorem fresh_call (f : Closure) (arguments : List Value) {names : List String}
    {body : Frame → Eval Value} (h : ∀ frame, Within frame.scope names (body frame)) :
    Fresh (enter f arguments >>= fun frame ↦ boundary (body frame)) := by
  intro m
  rw [Action.bind_apply, enter]
  dsimp only [boundary]
  -- the new scope is numbered `m.store.size`, so it is none of those before
  have hbody := h ⟨m.store.size, f.origin.unit⟩
    { m with store := m.store.add ⟨Dict.insertAll [] (f.parameters.zip arguments), some f.scope⟩ }
    (by rw [Store.size_add]; exact Nat.lt_succ_self _)
  split
  · rename_i hstop
    rw [hstop] at hbody
    exact hbody.extends_of_add
  · exact hbody.imp (fun _ _ ht ↦ ht.extends_of_add) fun _ _ ht ↦ ht.extends_of_add

/-! ## Every construct -/

mutual

theorem within_expression : ∀ depth frame (e : Expr),
    Within frame.scope e.lets (expression depth frame e)
  | 0, _, _ => .exhaust
  | _ + 1, frame, .ident id => .lookup frame id.name
  | _ + 1, _, .int _ n => .pure _
  | _ + 1, _, .string _ text => .pure _
  | _ + 1, _, .bool _ b => .pure _
  | _ + 1, _, .function _ _ _ => .pure _
  | depth + 1, frame, .unary _ op a =>
    (within_expression depth frame a).bind fun _ ↦ .ofExcept _
  | depth + 1, frame, .binary _ op a b => by
    refine ((within_expression depth frame a).mono (by simp [Expr.lets])).bind fun _ ↦ ?_
    exact ((within_expression depth frame b).mono (by simp [Expr.lets])).bind fun _ ↦ .ofExcept _
  | depth + 1, frame, .cond _ c b none => by
    refine ((within_expression depth frame c).mono (by simp [Expr.lets])).bind fun v ↦ ?_
    split
    · exact (within_statements depth frame .null b.statements).mono
        (by simp [Expr.lets, Block.lets_eq])
    · exact .pure _
  | depth + 1, frame, .cond _ c b (some d) => by
    refine ((within_expression depth frame c).mono (by simp [Expr.lets])).bind fun v ↦ ?_
    split
    · exact (within_statements depth frame .null b.statements).mono
        (by simp [Expr.lets, Block.lets_eq])
    · exact (within_statements depth frame .null d.statements).mono
        (by simp [Expr.lets, Block.lets_eq])
  | depth + 1, frame, .call _ f as => by
    refine ((within_expression depth frame f).mono (by simp [Expr.lets])).bind fun v ↦ ?_
    refine ((within_expressions depth frame as).mono (by simp [Expr.lets])).bind fun vs ↦ ?_
    exact (fresh_apply depth v vs).within _ _
  | depth + 1, frame, .array _ as => (within_expressions depth frame as).bind fun _ ↦ .pure _
  | depth + 1, frame, .index _ a i => by
    refine ((within_expression depth frame a).mono (by simp [Expr.lets])).bind fun _ ↦ ?_
    exact ((within_expression depth frame i).mono (by simp [Expr.lets])).bind fun _ ↦ .ofExcept _
  | depth + 1, frame, .hash _ ps => (within_entries depth frame [] ps).bind fun _ ↦ .pure _

theorem within_expressions : ∀ depth frame (es : List Expr),
    Within frame.scope (letsOfExprs es) (expressions depth frame es)
  | 0, _, _ => .exhaust
  | _ + 1, _, [] => .pure _
  | depth + 1, frame, e :: es => by
    refine ((within_expression depth frame e).mono (by simp [letsOfExprs])).bind fun _ ↦ ?_
    exact ((within_expressions depth frame es).mono (by simp [letsOfExprs])).bind fun _ ↦ .pure _

theorem within_entries : ∀ depth frame collected (ps : List (Expr × Expr)),
    Within frame.scope (letsOfPairs ps) (entries depth frame collected ps)
  | 0, _, _, _ => .exhaust
  | _ + 1, _, _, [] => .pure _
  | depth + 1, frame, collected, (k, v) :: ps => by
    refine ((within_expression depth frame k).mono (by simp [letsOfPairs])).bind fun _ ↦ ?_
    refine (Within.ofExcept _).bind fun _ ↦ ?_
    refine ((within_expression depth frame v).mono (by simp [letsOfPairs])).bind fun _ ↦ ?_
    exact (within_entries depth frame _ ps).mono (by simp [letsOfPairs])

theorem within_statement : ∀ depth frame (s : Stmt),
    Within frame.scope s.lets (statement depth frame s)
  | 0, _, _ => .exhaust
  | depth + 1, frame, .letStmt _ id e => by
    refine ((within_expression depth frame e).mono (by simp [Stmt.lets])).bind fun v ↦ ?_
    exact ((Within.assign frame id.name v).mono (by simp [Stmt.lets])).bind fun _ ↦ .pure _
  | _ + 1, _, .returnStmt _ none => .halt _
  | depth + 1, frame, .returnStmt _ (some e) =>
    (within_expression depth frame e).bind fun _ ↦ .halt _
  | depth + 1, frame, .exprStmt _ e => within_expression depth frame e

theorem within_statements : ∀ depth frame last (ss : List Stmt),
    Within frame.scope (letsOfStmts ss) (statements depth frame last ss)
  | 0, _, _, _ => .exhaust
  | _ + 1, _, _, [] => .pure _
  | depth + 1, frame, _, s :: ss => by
    refine ((within_statement depth frame s).mono (by simp [letsOfStmts])).bind fun v ↦ ?_
    exact (within_statements depth frame v ss).mono (by simp [letsOfStmts])

theorem fresh_apply : ∀ depth f arguments, Fresh (apply depth f arguments)
  | 0, _, _ => fun _ ↦ trivial
  | depth + 1, .function f, arguments => by
    rw [apply]
    split
    · exact fresh_call f arguments fun frame ↦
        within_statements depth frame .null f.body.statements
    · exact fun m ↦ .refl m.store
  | _ + 1, .builtin b, arguments => fresh_callBuiltin b arguments
  | _ + 1, .int _, _ | _ + 1, .bool _, _ | _ + 1, .string _, _ | _ + 1, .array _, _
  | _ + 1, .hash _, _ | _ + 1, .null, _ => fun m ↦ .refl m.store

end

end Eval

/-! ## Whole programs -/

/-- Evaluating a program that was read before writes to the scope that it is evaluated in. -/
theorem Reading.within_eval (depth : Nat) {scope : ScopeId} (r : Reading) {m : Machine}
    (hscope : scope < m.store.size) :
    (r.eval depth scope m).Post
      (fun _ n ↦ m.store.Writes scope (letsOfStmts r.program.statements) n.store)
      (fun _ n ↦ m.store.Writes scope (letsOfStmts r.program.statements) n.store) True := by
  have hwithin := Eval.within_statements depth ⟨scope, r.number⟩ .null r.program.statements m hscope
  exact hwithin.unwound fun _ _ h ↦ h

/-- A program writes to the scope that it is run in. -/
theorem Program.within_eval (depth : Nat) {scope : ScopeId} (p : Program) {m : Machine}
    (hscope : scope < m.store.size) :
    (p.eval depth scope m).Post
      (fun _ n ↦ m.store.Writes scope (letsOfStmts p.statements) n.store)
      (fun _ n ↦ m.store.Writes scope (letsOfStmts p.statements) n.store) True :=
  (m.keep p).1.within_eval depth (m := (m.keep p).2) hscope

/-! ## Whichever way it ends -/

/-- The state in which an action ended, if it did. -/
def Outcome.state? {ε σ α : Type} : Outcome ε σ α → Option σ
  | .done _ s | .stop _ s => some s
  | .exhausted => none

theorem Outcome.Post.of_state? {ε σ α : Type} {P : σ → Prop} {o : Outcome ε σ α} {s : σ}
    (h : o.Post (fun _ t ↦ P t) (fun _ t ↦ P t) True) (hs : o.state? = some s) : P s := by
  cases o with
  | done v t =>
    obtain rfl : t = s := Option.some.inj hs
    exact h
  | stop e t =>
    obtain rfl : t = s := Option.some.inj hs
    exact h
  | exhausted => exact absurd hs (by simp [state?])

/-- A `let` stops early when its value does, and then it has done nothing more. -/
theorem Eval.statement_letStmt_eq_stop (depth : Nat) (frame : Frame) (t : Token) (id : Identifier)
    (e : Expr) (m m' : Machine) (signal : Signal) :
    statement (depth + 1) frame (.letStmt t id e) m = .stop signal m' ↔
      expression depth frame e m = .stop signal m' := by
  rw [statement, Action.bind_apply]
  cases h : expression depth frame e m with
  | done v m'' => simp [assign, Action.bind_apply]
  | stop s m'' => simp
  | exhausted => simp

/-- **Evaluation writes only to the scope it runs in.**  This holds of expressions and of
statements, however they end.  A `let` whose value stops early binds nothing.  Calls leave all
scopes that existed before as they are. -/
theorem eval_writes_own_scope (depth : Nat) (frame : Frame) (m : Machine)
    (h : frame.scope < m.store.size) :
    (∀ e m', (Eval.expression depth frame e m).state? = some m' →
      m.store.Writes frame.scope e.lets m'.store) ∧
    (∀ last statements m', (Eval.statements depth frame last statements m).state? = some m' →
      m.store.Writes frame.scope (letsOfStmts statements) m'.store) ∧
    (∀ t id e signal m', Eval.expression depth frame e m = .stop signal m' →
      Eval.statement (depth + 1) frame (.letStmt t id e) m = .stop signal m') ∧
    ∀ f arguments m', (Eval.apply depth f arguments m).state? = some m' →
      ∀ id < m.store.size, m'.store.scope? id = m.store.scope? id := by
  refine ⟨fun e m' hm' ↦ ?_, fun last statements m' hm' ↦ ?_, fun t id e signal m' ↦ ?_,
    fun f arguments m' hm' ↦ ?_⟩
  · exact (Eval.within_expression depth frame e m h).of_state? hm'
  · exact (Eval.within_statements depth frame last statements m h).of_state? hm'
  · exact (Eval.statement_letStmt_eq_stop depth frame t id e m m' signal).2
  · exact ((Eval.fresh_apply depth f arguments m).of_state? hm').same

/-- The block `{ let y = 7 }`. -/
def blockWithY : Block where
  token := ⟨.symbol .leftBrace, ⟨1, 13⟩⟩
  statements := [.letStmt ⟨.keyword .kwLet, ⟨1, 15⟩⟩ ⟨⟨.ident "y", ⟨1, 19⟩⟩, "y"⟩
    (.int ⟨.int "7", ⟨1, 23⟩⟩ 7)]

/-- The statement `let x = fn() { let y = 7 }()`. -/
def letOfCall : Stmt :=
  .letStmt ⟨.keyword .kwLet, ⟨1, 1⟩⟩ ⟨⟨.ident "x", ⟨1, 5⟩⟩, "x"⟩
    (.call ⟨.symbol .leftParen, ⟨1, 26⟩⟩ (.function ⟨.keyword .kwFunction, ⟨1, 9⟩⟩ [] blockWithY)
      [])

/-- A shell beside a scope with a `y` of its own. -/
def shellBeside : Machine :=
  (Machine.initial.newShellScope.2.newScope none).2.set 1 "y" (.int 5)

/-- The shell calls a function that binds `y` in the new scope of the call.  The shell gets the name
`x` only, and the `y` of the other scope stays as it was.  So it does when the function is called by
itself. -/
theorem eval_writes_own_scope_shell :
    0 < shellBeside.store.size ∧ shellBeside.store.binding? 1 "y" = some (.int 5) ∧
      ∃ m' m'',
        (Eval.statements 7 ⟨0, 0⟩ .null [letOfCall] shellBeside).state? = some m' ∧
          m'.store.binding? 2 "y" = some (.int 7) ∧
          shellBeside.store.Writes 0 ["x"] m'.store ∧
        (Eval.apply 4 (.function ⟨[], blockWithY, ⟨0, ⟨1, 9⟩⟩, 0⟩) [] shellBeside).state? =
            some m'' ∧
          m''.store.binding? 2 "y" = some (.int 7) ∧
          ∀ id < 2, m''.store.scope? id = shellBeside.store.scope? id := by
  have hsize : 0 < shellBeside.store.size := by decide
  obtain ⟨m', hm', hy⟩ : ∃ m',
      (Eval.statements 7 ⟨0, 0⟩ .null [letOfCall] shellBeside).state? = some m' ∧
        m'.store.binding? 2 "y" = some (.int 7) := ⟨_, rfl, rfl⟩
  obtain ⟨m'', hm'', hy'⟩ : ∃ m'',
      (Eval.apply 4 (.function ⟨[], blockWithY, ⟨0, ⟨1, 9⟩⟩, 0⟩) [] shellBeside).state? = some m'' ∧
        m''.store.binding? 2 "y" = some (.int 7) := ⟨_, rfl, rfl⟩
  obtain ⟨-, hwrites, -, -⟩ := eval_writes_own_scope 7 ⟨0, 0⟩ shellBeside hsize
  obtain ⟨-, -, -, hcall⟩ := eval_writes_own_scope 4 ⟨0, 0⟩ shellBeside hsize
  exact ⟨hsize, rfl, m', m'', hm', hy, hwrites .null _ m' hm', hm'', hy', hcall _ _ m'' hm''⟩

end MonkeyLang
