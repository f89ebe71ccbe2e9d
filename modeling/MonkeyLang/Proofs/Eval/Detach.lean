import MonkeyLang.Proofs.Eval.Simulation

/-!
# A scope around the others that binds nothing

A scope that binds nothing and stands inside no other one adds nothing to what is seen from the
scopes inside it.  So one of them can be detached from it, and evaluation goes on in the same way:
with the same values and the same signals, and to the same stores but for the detached scope.  What
it takes is that nothing is bound in the outer scope on the way, and code that does not run there
binds nothing there.

`Store.Nested base id` says that the scope `id` stands in such a scope `base`, and `Eval.Blind base
id` that an evaluation cannot tell whether it does.

## What it is for

A program that is written as the body of a function, which is then called, runs in a scope inside
the one around it.  If that one is new, it binds nothing, and the program should do what it does in
a new scope itself.  Two changes are needed for that.  The numbers of the scopes differ by one,
which is a matter of matching scopes (`MonkeyLang.Proofs.Eval.Simulation`).  And one scope stands
inside another instead of inside none, which matching cannot express, because matched scopes have
outer scopes both or neither.  That second change is made here, in one store, with all numbers as
they are.

The outer scope has to stay empty for the whole run.  Code in another scope cannot write to it: it
binds names in the scope that it runs in only, and calls run in new scopes.  A function that was
*made* in the outer scope would bind names there if it ran there, but functions never run in the
scope that they were made in.
-/

set_option autoImplicit false

namespace MonkeyLang

/-! ## Stores -/

namespace Store

/-- A store is its scopes. -/
theorem ext_scope? {s t : Store} (h : ∀ id, s.scope? id = t.scope? id) : s = t := by
  cases s
  cases t
  exact congrArg Store.mk (Array.ext_getElem? h)

/-- The store in which one scope stands inside no other one.  Nothing else changes: the bindings of
the scope are the same, and so are all other scopes. -/
def detach (s : Store) (id : ScopeId) : Store :=
  ⟨s.scopes.modify id fun scope ↦ { scope with outer := none }⟩

@[simp]
theorem size_detach (s : Store) (id : ScopeId) : (s.detach id).size = s.size :=
  Array.size_modify

theorem scope?_detach (s : Store) (id other : ScopeId) :
    (s.detach id).scope? other =
      if id = other then (s.scope? other).map fun scope ↦ { scope with outer := none }
      else s.scope? other :=
  Array.getElem?_modify

/-- Detaching a scope and binding a name in it or in another one can be done in any order. -/
theorem detach_bind (s : Store) (id scope : ScopeId) (name : String) (value : Value) :
    (s.bind scope name value).detach id = (s.detach id).bind scope name value := by
  refine ext_scope? fun other ↦ ?_
  rw [scope?_detach, scope?_bind, scope?_bind, scope?_detach]
  cases s.scope? other with
  | none => simp
  | some content => by_cases hid : id = other <;> by_cases hscope : scope = other <;> simp [*]

/-- Detaching a scope and making another one can be done in any order. -/
theorem detach_add (s : Store) (scope : Scope) {id : ScopeId} (h : id < s.size) :
    (s.add scope).detach id = (s.detach id).add scope := by
  refine ext_scope? fun other ↦ ?_
  rw [scope?_detach, scope?_add_eq, scope?_add_eq, size_detach, scope?_detach]
  by_cases hnew : other = s.size
  · rw [if_pos hnew, if_pos hnew, if_neg (by rw [hnew]; exact Nat.ne_of_lt h)]
  · rw [if_neg hnew, if_neg hnew]

/-- To detach the newest scope is to make it inside no other one. -/
theorem detach_add_size (s : Store) (scope : Scope) :
    (s.add scope).detach s.size = s.add { scope with outer := none } := by
  refine ext_scope? fun other ↦ ?_
  rw [scope?_detach, scope?_add_eq, scope?_add_eq]
  by_cases hnew : other = s.size
  · rw [if_pos hnew, if_pos hnew, if_pos hnew.symm]
    rfl
  · rw [if_neg hnew, if_neg hnew, if_neg (Ne.symm hnew)]

/-- The scope `id` stands inside `base`, which binds nothing and stands inside no other one.  The
outer scope is that of a program that does nothing but call a function, and the inner one is that
of the call. -/
structure Nested (base id : ScopeId) (s : Store) : Prop where
  outside : s.scope? base = some ⟨[], none⟩
  inside : ∃ bindings, s.scope? id = some ⟨bindings, some base⟩

namespace Nested

variable {base id : ScopeId} {s : Store}

/-- A new scope. -/
theorem of_add (h : s.scope? base = some ⟨[], none⟩) (bindings : List (String × Value)) :
    (s.add ⟨bindings, some base⟩).Nested base s.size where
  outside := by rw [scope?_add s _ (lt_size_of_scope? h), h]
  inside := ⟨bindings, scope?_add_size s _⟩

theorem inside_lt (h : s.Nested base id) : id < s.size := by
  obtain ⟨bindings, hinside⟩ := h.inside
  exact lt_size_of_scope? hinside

/-- Binding a name elsewhere leaves the outer scope empty. -/
theorem bind (h : s.Nested base id) {scope : ScopeId} (hscope : scope ≠ base) (name : String)
    (value : Value) : (s.bind scope name value).Nested base id where
  outside := by rw [scope?_bind, if_neg hscope, h.outside]
  inside := by
    obtain ⟨bindings, hinside⟩ := h.inside
    rw [scope?_bind, hinside]
    split
    · exact ⟨_, rfl⟩
    · exact ⟨_, rfl⟩

theorem add (h : s.Nested base id) (scope : Scope) : (s.add scope).Nested base id where
  outside := by rw [scope?_add s scope (lt_size_of_scope? h.outside), h.outside]
  inside := by
    rw [scope?_add s scope h.inside_lt]
    exact h.inside

/-- Nothing is found in the outer scope. -/
theorem lookup_base (h : s.Nested base id) (name : String) : s.lookup base name = none := by
  rw [lookup, h.outside]
  rfl

/-- All names have the same values, seen from any scope.  The way outward from `id` is one step
shorter, and this step had nothing to find. -/
theorem lookup_detach (h : s.Nested base id) (scope : ScopeId) (name : String) :
    (s.detach id).lookup scope name = s.lookup scope name := by
  -- the outer scope is an older one
  induction scope using Nat.strongRecOn with
  | ind scope ih =>
    by_cases hid : id = scope
    · subst hid
      obtain ⟨bindings, hinside⟩ := h.inside
      rw [lookup, lookup, scope?_detach, if_pos rfl, hinside]
      dsimp only [Option.map_some]
      cases Dict.get? bindings name with
      | some value => rfl
      | none =>
        dsimp only
        rw [h.lookup_base, ite_self]
    · rw [lookup, lookup, scope?_detach, if_neg hid]
      cases s.scope? scope with
      | none => rfl
      | some content =>
        dsimp only
        cases Dict.get? content.bindings name with
        | some value => rfl
        | none =>
          dsimp only
          cases content.outer with
          | none => rfl
          | some outer =>
            dsimp only
            split
            · exact ih outer ‹_›
            · rfl

end Nested

end Store

/-- The machine in which one scope stands inside no other one. -/
def Machine.detach (id : ScopeId) (m : Machine) : Machine :=
  { m with store := m.store.detach id }

/-! ## Evaluations that do not see the outer scope -/

namespace Eval

/-- The same result `v` with the machine `n` and with `n'`, which has `id` detached.  Values are
the same on both sides and not merely alike, since no scope changes its number. -/
def Detached {α : Type} (base id : ScopeId) (v : α) (n : Machine) (w : α) (n' : Machine) : Prop :=
  v = w ∧ n' = n.detach id ∧ n.store.Nested base id

/-- The evaluation goes in the same way whether `id` stands inside `base` or inside no scope.  The
evaluation may refer to `id`, and it usually does, but nothing binds a name in `base` on the way.
-/
def Blind {α : Type} (base id : ScopeId) (run : Eval α) : Prop :=
  ∀ m : Machine, m.store.Nested base id →
    (run m).Together (Detached base id) (Detached base id) (run (m.detach id))

namespace Blind

variable {α β : Type} {base id : ScopeId}

theorem pure (value : α) : Blind base id (pure value : Eval α) := fun _ hm ↦ ⟨rfl, rfl, hm⟩

theorem exhaust : Blind base id (Action.exhaust : Eval α) := fun _ _ ↦ trivial

theorem halt (signal : Signal) : Blind base id (Action.halt signal : Eval α) :=
  fun _ hm ↦ ⟨rfl, rfl, hm⟩

theorem ofExcept (result : Except EvalError α) : Blind base id (ofExcept result) := by
  cases result with
  | ok value => exact pure value
  | error e => exact halt _

theorem bind {first : Eval α} {next : α → Eval β} (h : Blind base id first)
    (hnext : ∀ v, Blind base id (next v)) : Blind base id (first >>= next) := by
  intro m hm
  refine (h m hm).bind ?_
  rintro v n _ _ ⟨rfl, rfl, hn⟩
  exact hnext v n hn

theorem lookup (frame : Frame) (text : String) : Blind base id (lookup frame text) := by
  intro m hm
  have hlookup : (m.detach id).store.lookup frame.scope text = m.store.lookup frame.scope text :=
    hm.lookup_detach frame.scope text
  rw [Eval.lookup, Eval.lookup, hlookup]
  cases m.store.lookup frame.scope text with
  | some value => exact ⟨rfl, rfl, hm⟩
  | none =>
    dsimp only
    cases Builtin.ofName? text with
    | some b => exact ⟨rfl, rfl, hm⟩
    | none => exact ⟨rfl, rfl, hm⟩

/-- Names are bound in the scope of the frame, which is not the outer one. -/
theorem assign {frame : Frame} (hframe : frame.scope ≠ base) (text : String) (value : Value) :
    Blind base id (assign frame text value) := by
  intro m hm
  refine ⟨rfl, ?_, hm.bind hframe text value⟩
  exact congrArg (fun store ↦ { m with store := store }) (Store.detach_bind ..).symm

theorem boundary {run : Eval Value} (h : Blind base id run) : Blind base id (boundary run) := by
  intro m hm
  rw [Eval.boundary, Eval.boundary]
  obtain ⟨v, n, w, n', ho, ho', hvw⟩ | ⟨e, n, _, n', ho, ho', rfl, hn⟩ | ⟨ho, ho'⟩ :=
    (h m hm).inv
  · rw [ho, ho']
    exact hvw
  · rw [ho, ho']
    cases e with
    | returned value => exact ⟨rfl, hn⟩
    | failed error => exact ⟨rfl, hn⟩
  · rw [ho, ho']
    exact trivial

/-- A call runs in a new scope, so it does not run in the outer one. -/
theorem call (f : Closure) (arguments : List Value) {body : Frame → Eval Value}
    (h : ∀ frame, frame.scope ≠ base → Blind base id (body frame)) :
    Blind base id (enter f arguments >>= fun frame ↦ Eval.boundary (body frame)) := by
  intro m hm
  rw [Action.bind_apply, Action.bind_apply, enter, enter]
  dsimp only [Machine.detach]
  rw [Store.size_detach, ← Store.detach_add _ _ hm.inside_lt]
  have hframe : m.store.size ≠ base := Nat.ne_of_gt (Store.lt_size_of_scope? hm.outside)
  exact (h ⟨m.store.size, f.origin.unit⟩ hframe).boundary _ (hm.add _)

theorem callBuiltin (b : Builtin) (arguments : List Value) :
    Blind base id (callBuiltin b arguments) := by
  have hresult : Blind base id (Eval.ofExcept (b.result arguments)) := ofExcept _
  rw [Eval.callBuiltin]
  split
  · exact fun m hm ↦ hresult _ hm
  · exact hresult

end Blind

/-! ## Every construct -/

section

variable {base id : ScopeId}

mutual

/-- The frame runs in any scope but the outer one.  Scopes that are made on the way are newer, so
they are not the outer one either. -/
theorem blind_expression : ∀ depth {frame : Frame}, frame.scope ≠ base → ∀ e : Expr,
    Blind base id (expression depth frame e)
  | 0, _, _, _ => .exhaust
  | _ + 1, frame, _, .ident x => .lookup frame x.name
  | _ + 1, _, _, .int _ _ | _ + 1, _, _, .string _ _ | _ + 1, _, _, .bool _ _
  | _ + 1, _, _, .function _ _ _ => .pure _
  | depth + 1, _, hframe, .unary _ _ a =>
    (blind_expression depth hframe a).bind fun _ ↦ .ofExcept _
  | depth + 1, _, hframe, .binary _ _ a b =>
    (blind_expression depth hframe a).bind fun _ ↦
      (blind_expression depth hframe b).bind fun _ ↦ .ofExcept _
  | depth + 1, _, hframe, .cond _ c b none => by
    refine (blind_expression depth hframe c).bind fun v ↦ ?_
    split
    · exact blind_statements depth hframe .null b.statements
    · exact .pure _
  | depth + 1, _, hframe, .cond _ c b (some d) => by
    refine (blind_expression depth hframe c).bind fun v ↦ ?_
    split
    · exact blind_statements depth hframe .null b.statements
    · exact blind_statements depth hframe .null d.statements
  | depth + 1, _, hframe, .call _ f as =>
    (blind_expression depth hframe f).bind fun v ↦
      (blind_expressions depth hframe as).bind fun vs ↦ blind_apply depth v vs
  | depth + 1, _, hframe, .array _ as => (blind_expressions depth hframe as).bind fun _ ↦ .pure _
  | depth + 1, _, hframe, .index _ a i =>
    (blind_expression depth hframe a).bind fun _ ↦
      (blind_expression depth hframe i).bind fun _ ↦ .ofExcept _
  | depth + 1, _, hframe, .hash _ ps => (blind_entries depth hframe [] ps).bind fun _ ↦ .pure _

theorem blind_expressions : ∀ depth {frame : Frame}, frame.scope ≠ base → ∀ es : List Expr,
    Blind base id (expressions depth frame es)
  | 0, _, _, _ => .exhaust
  | _ + 1, _, _, [] => .pure _
  | depth + 1, _, hframe, e :: es =>
    (blind_expression depth hframe e).bind fun _ ↦
      (blind_expressions depth hframe es).bind fun _ ↦ .pure _

theorem blind_entries : ∀ depth {frame : Frame}, frame.scope ≠ base →
    ∀ collected (ps : List (Expr × Expr)), Blind base id (entries depth frame collected ps)
  | 0, _, _, _, _ => .exhaust
  | _ + 1, _, _, _, [] => .pure _
  | depth + 1, _, hframe, _, (k, v) :: ps =>
    (blind_expression depth hframe k).bind fun _ ↦ (Blind.ofExcept _).bind fun _ ↦
      (blind_expression depth hframe v).bind fun _ ↦ blind_entries depth hframe _ ps

theorem blind_statement : ∀ depth {frame : Frame}, frame.scope ≠ base → ∀ s : Stmt,
    Blind base id (statement depth frame s)
  | 0, _, _, _ => .exhaust
  | depth + 1, _, hframe, .letStmt _ x e =>
    (blind_expression depth hframe e).bind fun v ↦
      (Blind.assign hframe x.name v).bind fun _ ↦ .pure _
  | _ + 1, _, _, .returnStmt _ none => .halt _
  | depth + 1, _, hframe, .returnStmt _ (some e) =>
    (blind_expression depth hframe e).bind fun _ ↦ .halt _
  | depth + 1, _, hframe, .exprStmt _ e => blind_expression depth hframe e

theorem blind_statements : ∀ depth {frame : Frame}, frame.scope ≠ base →
    ∀ last (ss : List Stmt), Blind base id (statements depth frame last ss)
  | 0, _, _, _, _ => .exhaust
  | _ + 1, _, _, _, [] => .pure _
  | depth + 1, _, hframe, _, s :: ss =>
    (blind_statement depth hframe s).bind fun v ↦ blind_statements depth hframe v ss

/-- No condition on the function is needed, because the body runs in a scope of its own. -/
theorem blind_apply : ∀ depth f arguments, Blind base id (apply depth f arguments)
  | 0, _, _ => .exhaust
  | depth + 1, .function f, arguments => by
    rw [apply]
    split
    · exact .call f arguments fun _ hframe ↦
        blind_statements depth hframe .null f.body.statements
    · exact .halt _
  | _ + 1, .builtin b, arguments => .callBuiltin b arguments
  | _ + 1, .int _, _ | _ + 1, .bool _, _ | _ + 1, .string _, _ | _ + 1, .array _, _
  | _ + 1, .hash _, _ | _ + 1, .null, _ => .halt _

end

end

end Eval

end MonkeyLang
