import MonkeyLang.Proofs.Eval.Frame
import MonkeyLang.Proofs.Program.Nodes
import MonkeyLang.Proofs.Value.Congruence
import MonkeyLang.Proofs.Value.Held

/-!
# What evaluation leaves behind

Functions refer to scopes, and scopes hold functions, so what a store holds can form cycles.  Still
two things are always in order.  The scope around a scope is an older one, and every function in
the store was made in a scope that exists: `Store.WellFormed`.

The bodies of functions are pieces of the programs that were run.  A property `P` of nodes that all
these programs have is therefore one of all functions in the store: `Store.Sound P`.

Evaluation keeps both, and gives values with functions of this kind only.  It also blames operators
for an error only if they stand in a node with `P`.  `Eval.Keeps` says so, and
`Eval.keeps_expression`, … prove it of all code whose nodes have `P`.

## Scopes and code together

A function that is called evaluates its body in a scope inside its own.  For the scope one needs
that the scope of the function exists, and for the body that its nodes have `P`, and both have to
be known of every function that a name can be bound to.  So the two invariants are carried through
evaluation together.  `P` is a parameter.  With `P` always true, what remains is that the store is
well formed; with the property of nodes to fit their tokens, it follows that some errors never
happen.

## Sizes

What it means that a scope exists changes during an evaluation, because scopes are made.
`Value.Sound P size` is about the first `size` scopes, and values stay sound as the store grows.
`Eval.Keeps P size R` starts with any store of at least that size, and its result may refer to
scopes that were made on the way.  So the relation `R` is given the size in the end.

A host binds values as well.  Which values it can come by is the subject of
`MonkeyLang.Proofs.Session.Client`.
-/

set_option autoImplicit false

namespace MonkeyLang

/-! ## Sound values and stores -/

/-- The function was made in one of the first `size` scopes, and the nodes of its body have `P`.
The number of scopes is a parameter since it is all that a closure needs to know of a store. -/
structure Closure.Sound (P : Node → Prop) (size : Nat) (f : Closure) : Prop where
  scope : f.scope < size
  body : ∀ x ∈ f.body.nodes, P x

/-- All functions in a value are sound. -/
def Value.Sound (P : Node → Prop) (size : Nat) (v : Value) : Prop :=
  ∀ f ∈ v.closures, f.Sound P size

/-- A value is bound to a name in some scope. -/
def Store.Binds (s : Store) (v : Value) : Prop :=
  ∃ id scope, s.scope? id = some scope ∧ ∃ name, (name, v) ∈ scope.bindings

/-- A function lies in a value that is bound in some scope.  It may lie in the value at any depth.
-/
def Store.Holds (s : Store) (f : Closure) : Prop :=
  ∃ id scope, s.scope? id = some scope ∧ ∃ p ∈ scope.bindings, f ∈ p.2.closures

/-- All references lead to scopes that exist, and outward to older ones.  So looking up a name
ends.  References from values to scopes may lead anywhere, also to the scope that holds the value.
-/
structure Store.WellFormed (s : Store) : Prop where
  /-- A scope stands inside an older one. -/
  older : ∀ {id : ScopeId} {scope : Scope} {outer : ScopeId}, s.scope? id = some scope →
    scope.outer = some outer → outer < id
  /-- A function was made in a scope that exists. -/
  captured : ∀ f, s.Holds f → f.scope < s.size

/-- A well-formed store whose functions have bodies with `P` in all nodes.  With `P` always true
this is that the store is well formed. -/
structure Store.Sound (P : Node → Prop) (s : Store) : Prop where
  wellFormed : s.WellFormed
  bodies : ∀ f, s.Holds f → ∀ x ∈ f.body.nodes, P x

section Sound

variable {P : Node → Prop} {size size' : Nat}

/-- A scope that exists goes on existing. -/
theorem Closure.Sound.mono {f : Closure} (h : f.Sound P size) (hle : size ≤ size') :
    f.Sound P size' :=
  ⟨Nat.lt_of_lt_of_le h.scope hle, h.body⟩

namespace Value

theorem Sound.mono {v : Value} (h : v.Sound P size) (hle : size ≤ size') : v.Sound P size' :=
  fun f hf ↦ (h f hf).mono hle

theorem Sound.of_nil {v : Value} (h : v.closures = []) : v.Sound P size := by
  intro f hf
  rw [h] at hf
  cases hf

theorem sound_function {f : Closure} : (Value.function f).Sound P size ↔ f.Sound P size :=
  List.forall_mem_singleton

theorem sound_array {vs : List Value} :
    (Value.array vs).Sound P size ↔ ∀ v ∈ vs, v.Sound P size := by
  refine ⟨fun h v hv f hf ↦ h f (mem_closures_array.2 ⟨v, hv, hf⟩), fun h f hf ↦ ?_⟩
  obtain ⟨v, hv, hfv⟩ := mem_closures_array.1 hf
  exact h v hv f hfv

theorem sound_hash {es : List (Key × Value)} :
    (Value.hash es).Sound P size ↔ ∀ p ∈ es, p.2.Sound P size := by
  refine ⟨fun h p hp f hf ↦ h f (mem_closures_hash.2 ⟨p, hp, hf⟩), fun h f hf ↦ ?_⟩
  obtain ⟨p, hp, hfp⟩ := mem_closures_hash.1 hf
  exact h p hp f hfp

/-- So whatever an operator or a builtin function gives is sound if the operands are. -/
theorem hereditary_sound : Hereditary (Value.Sound P size) where
  simple {v} hv := by
    cases v with
    | array _ | hash _ | function _ => cases hv
    | _ => exact .of_nil rfl
  array := sound_array
  hash := sound_hash.1

end Value

namespace Store

/-- A function that is found in the store can be called. -/
theorem Sound.held {s : Store} (h : s.Sound P) {f : Closure} (hf : s.Holds f) :
    f.Sound P s.size :=
  ⟨h.wellFormed.captured f hf, h.bodies f hf⟩

theorem Binds.of_add {s : Store} {content : Scope} {v : Value} (h : (s.add content).Binds v) :
    s.Binds v ∨ ∃ name, (name, v) ∈ content.bindings := by
  obtain ⟨id, scope, hscope, hv⟩ := h
  rw [scope?_add_eq] at hscope
  split at hscope
  · cases hscope
    exact .inr hv
  · exact .inl ⟨id, scope, hscope, hv⟩

/-- A value that is bound after one was bound is that one or was bound before. -/
theorem Binds.of_bind {s : Store} {id : ScopeId} {name : String} {v w : Value}
    (h : (s.bind id name v).Binds w) : s.Binds w ∨ w = v := by
  obtain ⟨other, scope, hscope, key, hw⟩ := h
  rw [scope?_bind] at hscope
  split at hscope
  · obtain ⟨content, hcontent, rfl⟩ := Option.map_eq_some_iff.1 hscope
    rcases Dict.mem_insert hw with heq | hold
    · exact .inr (Prod.mk.inj heq).2
    · exact .inl ⟨other, content, hcontent, key, hold⟩
  · exact .inl ⟨other, scope, hscope, key, hw⟩

/-- What a name is found to be is bound in some scope. -/
theorem binds_of_lookup {s : Store} {id : ScopeId} {name : String} {v : Value}
    (h : s.lookup id name = some v) : s.Binds v := by
  -- the outer scope is an older one
  induction id using Nat.strongRecOn with
  | ind id ih =>
    rw [lookup] at h
    cases hscope : s.scope? id with
    | none => simp [hscope] at h
    | some scope =>
      rw [hscope] at h
      dsimp only at h
      split at h
      · rename_i w hw
        cases h
        exact ⟨id, scope, hscope, name, Dict.mem_of_get? hw⟩
      · split at h
        · cases h
        · split at h
          · exact ih _ ‹_› h
          · cases h

/-- Without scopes nothing is bound. -/
theorem not_binds_empty (v : Value) : ¬ Store.empty.Binds v := by
  rintro ⟨id, scope, hscope, -⟩
  cases (scope?_eq_none.2 (Nat.zero_le _)).symm.trans hscope

/-- A function is held if a value that holds it is bound. -/
theorem holds_iff {s : Store} {f : Closure} : s.Holds f ↔ ∃ v, s.Binds v ∧ f ∈ v.closures := by
  constructor
  · rintro ⟨id, scope, hscope, ⟨name, v⟩, hp, hf⟩
    exact ⟨v, ⟨id, scope, hscope, name, hp⟩, hf⟩
  · rintro ⟨v, ⟨id, scope, hscope, name, hp⟩, hf⟩
    exact ⟨id, scope, hscope, (name, v), hp, hf⟩

/-- A function held after a scope was made was held before or lies in the new scope. -/
theorem Holds.of_add {s : Store} {content : Scope} {f : Closure}
    (h : (s.add content).Holds f) : s.Holds f ∨ ∃ p ∈ content.bindings, f ∈ p.2.closures := by
  obtain ⟨v, hv, hf⟩ := holds_iff.1 h
  rcases hv.of_add with hold | ⟨name, hnew⟩
  · exact .inl (holds_iff.2 ⟨v, hold, hf⟩)
  · exact .inr ⟨(name, v), hnew, hf⟩

/-- The value that was bound before may be gone, hence there is no equivalence. -/
theorem Holds.of_bind {s : Store} {id : ScopeId} {name : String} {v : Value} {f : Closure}
    (h : (s.bind id name v).Holds f) : s.Holds f ∨ f ∈ v.closures := by
  obtain ⟨w, hw, hf⟩ := holds_iff.1 h
  rcases hw.of_bind with hold | rfl
  · exact .inl (holds_iff.2 ⟨w, hold, hf⟩)
  · exact .inr hf

namespace Sound

variable {s : Store}

theorem empty : Store.empty.Sound P := by
  have hnone : ∀ id, Store.empty.scope? id = none := fun _ ↦ scope?_eq_none.2 (Nat.zero_le _)
  have hheld : ∀ f, ¬ Store.empty.Holds f := by
    intro f hf
    obtain ⟨v, hv, -⟩ := holds_iff.1 hf
    exact not_binds_empty v hv
  refine ⟨⟨fun hscope ↦ ?_, fun f hf ↦ absurd hf (hheld f)⟩, fun f hf ↦ absurd hf (hheld f)⟩
  cases (hnone _).symm.trans hscope

/-- A scope inside an existing one, with sound values, keeps a store sound. -/
theorem add (h : s.Sound P) {content : Scope}
    (houter : ∀ outer, content.outer = some outer → outer < s.size)
    (hbindings : ∀ p ∈ content.bindings, p.2.Sound P s.size) : (s.add content).Sound P := by
  have hheld : ∀ f, (s.add content).Holds f → f.Sound P s.size := by
    intro f hf
    rcases hf.of_add with hold | ⟨p, hp, hfp⟩
    · exact h.held hold
    · exact hbindings p hp f hfp
  refine ⟨⟨?_, fun f hf ↦ ?_⟩, fun f hf ↦ (hheld f hf).body⟩
  · intro id scope outer hscope hscopeOuter
    rw [scope?_add_eq] at hscope
    split at hscope
    · rename_i hid
      cases hscope
      rw [hid]
      exact houter outer hscopeOuter
    · exact h.wellFormed.older hscope hscopeOuter
  · rw [size_add]
    exact Nat.lt_succ_of_lt (hheld f hf).scope

theorem bind (h : s.Sound P) (id : ScopeId) (name : String) {v : Value} (hv : v.Sound P s.size) :
    (s.bind id name v).Sound P := by
  have hheld : ∀ f, (s.bind id name v).Holds f → f.Sound P s.size := by
    intro f hf
    rcases hf.of_bind with hold | hnew
    · exact h.held hold
    · exact hv f hnew
  refine ⟨⟨?_, fun f hf ↦ ?_⟩, fun f hf ↦ (hheld f hf).body⟩
  · intro other scope outer hscope houter
    rw [scope?_bind] at hscope
    split at hscope
    · obtain ⟨content, hcontent, rfl⟩ := Option.map_eq_some_iff.1 hscope
      exact h.wellFormed.older hcontent houter
    · exact h.wellFormed.older hscope houter
  · rw [size_bind]
    exact (hheld f hf).scope

theorem lookup (h : s.Sound P) {id : ScopeId} {name : String} {v : Value}
    (hv : s.lookup id name = some v) : v.Sound P s.size :=
  fun _ hf ↦ h.held (holds_iff.2 ⟨v, binds_of_lookup hv, hf⟩)

end Sound

end Store

/-! ## Errors

Errors are blamed on nodes.  An error about an operator says which operator and which types, and
there is a node with this operator in the code that was run. -/

/-- An error about an operator comes from a node with `P` that has this operator.  The operator `!`
takes every operand, and between two integers all operators but `!` are known. -/
def EvalError.From (P : Node → Prop) : EvalError → Prop
  | .unknownUnary op _ => op ≠ .bang ∧ ∃ t a, P (.expr (.unary t op a))
  | .unknownBinary left op right =>
    (left = .integer ∨ right = .integer → op = .bang) ∧ ∃ t a b, P (.expr (.binary t op a b))
  | .typeMismatch _ op _ => ∃ t a b, P (.expr (.binary t op a b))
  | _ => True

/-- A prefix operator fails only if it is a minus. -/
theorem from_applyUnary {t : Token} {op : Operator} {a : Expr} (hP : P (.expr (.unary t op a)))
    {v : Value} {e : EvalError} (h : applyUnary op v = .error e) : e.From P := by
  unfold applyUnary at h
  split at h
  · cases h
  · cases h
  · rename_i hbang _
    cases h
    exact ⟨hbang, t, a, hP⟩

theorem from_unsupported {t : Token} {op : Operator} {a b : Expr}
    (hP : P (.expr (.binary t op a b))) {left right : ValueType}
    (h : left = .integer → right = .integer → op = .bang) :
    (EvalError.unsupported left op right).From P := by
  rw [EvalError.unsupported]
  split
  · rename_i htype
    subst htype
    exact ⟨fun hint ↦ h (or_self_iff.1 hint) (or_self_iff.1 hint), t, a, b, hP⟩
  · exact ⟨t, a, b, hP⟩

theorem from_applyToInts {t : Token} {op : Operator} {a b : Expr}
    (hP : P (.expr (.binary t op a b))) {m n : Int64} {e : EvalError}
    (h : applyToInts op m n = .error e) : e.From P := by
  unfold applyToInts at h
  split at h
  case h_4 =>
    split at h <;> cases h
    trivial
  case h_9 =>
    cases h
    exact from_unsupported hP fun _ _ ↦ rfl
  all_goals cases h

/-- Three failures are possible: operands of different types, an operator that these types do not
have, and a division by zero.  Nothing is claimed about the last one. -/
theorem from_applyBinary {t : Token} {op : Operator} {a b : Expr}
    (hP : P (.expr (.binary t op a b))) {v w : Value} {e : EvalError}
    (h : applyBinary op v w = .error e) : e.From P := by
  unfold applyBinary at h
  split at h
  · exact from_applyToInts hP h
  · unfold applyToStrings at h
    split at h
    · cases h
    · cases h
      exact from_unsupported hP nofun
  · rename_i hints _
    split at h
    · cases h
    · cases h
    · cases h
      refine from_unsupported hP fun hleft hright ↦ ?_
      obtain ⟨m, rfl⟩ : ∃ m, v = .int m := by
        cases v <;> cases hleft
        exact ⟨_, rfl⟩
      obtain ⟨n, rfl⟩ : ∃ n, w = .int n := by
        cases w <;> cases hright
        exact ⟨_, rfl⟩
      exact absurd rfl (hints m n rfl)

theorem from_requireKey {v : Value} {e : EvalError} (h : requireKey v = .error e) : e.From P := by
  unfold requireKey at h
  split at h <;> cases h
  trivial

theorem from_applyIndex {v w : Value} {e : EvalError} (h : applyIndex v w = .error e) :
    e.From P := by
  unfold applyIndex at h
  split at h
  · cases h
  · cases h
  · split at h
    · cases h
    · rename_i hkey
      cases h
      exact from_requireKey hkey
  · cases h
    trivial

theorem from_requireArray {b : Builtin} {v : Value} {e : EvalError}
    (h : requireArray b v = .error e) : e.From P := by
  unfold requireArray at h
  split at h <;> cases h
  trivial

theorem from_map {α β : Type} {r : Except EvalError α} (hr : ∀ e, r = .error e → e.From P)
    {f : α → β} {e : EvalError} (h : r.map f = .error e) : e.From P := by
  cases r with
  | ok v => cases h
  | error e' =>
    cases h
    exact hr e rfl

theorem from_withOne {vs : List Value} {f : Value → Except EvalError Value}
    (hf : ∀ v e, f v = .error e → e.From P) {e : EvalError} (h : withOne vs f = .error e) :
    e.From P := by
  unfold withOne at h
  split at h
  · exact hf _ e h
  · cases h
    trivial

theorem Builtin.from_result (b : Builtin) {vs : List Value} {e : EvalError}
    (h : b.result vs = .error e) : e.From P := by
  cases b with
  | len =>
    refine from_withOne (fun v e hv ↦ ?_) h
    unfold lengthOf at hv
    split at hv <;> cases hv
    trivial
  | first | last | rest =>
    exact from_withOne (fun v e hv ↦ from_map (fun _ ↦ from_requireArray) hv) h
  | push =>
    unfold Builtin.result at h
    dsimp only at h
    split at h
    · exact from_map (fun _ ↦ from_requireArray) h
    · cases h
      trivial
  | puts => cases h

/-! ## Evaluations that keep the store sound -/

/-- A `return` with a sound value, or an error of a node with `P`. -/
def Signal.Sound (P : Node → Prop) (size : Nat) : Signal → Prop
  | .returned v => v.Sound P size
  | .failed e => e.From P

/-- The store is sound and has at least `size` scopes.  There may be more of them, since others may
have been made in the meantime. -/
structure Machine.Sound (P : Node → Prop) (size : Nat) (m : Machine) : Prop where
  size_le : size ≤ m.store.size
  store : m.store.Sound P

namespace Eval

/-- From a sound store with at least `size` scopes on, the evaluation keeps the store sound and no
smaller, and ends with a sound signal or with a result with `R`, which may depend on the number of
scopes.  What is asked of results is a parameter: values are sound, lists of values are lists of
sound values, and a frame has a scope that exists. -/
def Keeps {α : Type} (P : Node → Prop) (size : Nat) (R : Nat → α → Prop) (run : Eval α) : Prop :=
  ∀ m : Machine, m.Sound P size →
    (run m).Post (fun v n ↦ n.Sound P size ∧ R n.store.size v)
      (fun e n ↦ n.Sound P size ∧ e.Sound P n.store.size) True

namespace Keeps

variable {α β : Type} {R : Nat → α → Prop} {S : Nat → β → Prop}

theorem pure {v : α} (h : ∀ n, size ≤ n → R n v) : Keeps P size R (pure v) :=
  fun m hm ↦ ⟨hm, h m.store.size hm.size_le⟩

theorem exhaust : Keeps P size R (Action.exhaust : Eval α) := fun _ _ ↦ trivial

theorem halt {e : Signal} (h : ∀ n, size ≤ n → e.Sound P n) :
    Keeps P size R (Action.halt e : Eval α) :=
  fun m hm ↦ ⟨hm, h m.store.size hm.size_le⟩

theorem ofExcept {r : Except EvalError α} (hok : ∀ v, r = .ok v → ∀ n, size ≤ n → R n v)
    (herror : ∀ e, r = .error e → e.From P) : Keeps P size R (ofExcept r) := by
  cases r with
  | ok v => exact pure (hok v rfl)
  | error e => exact halt fun _ _ ↦ herror e rfl

theorem bind {first : Eval α} {next : α → Eval β} (h : Keeps P size R first)
    (hnext : ∀ n, size ≤ n → ∀ v, R n v → Keeps P n S (next v)) :
    Keeps P size S (first >>= next) := by
  intro m hm
  refine (h m hm).bind fun v n ⟨hn, hv⟩ ↦ ?_
  refine (hnext n.store.size hn.size_le v hv n ⟨Nat.le_refl _, hn.store⟩).imp ?_ ?_
  · rintro w n' ⟨hn', hw⟩
    exact ⟨⟨Nat.le_trans hn.size_le hn'.size_le, hn'.store⟩, hw⟩
  · rintro e n' ⟨hn', he⟩
    exact ⟨⟨Nat.le_trans hn.size_le hn'.size_le, hn'.store⟩, he⟩

/-- A builtin function, which is found if no scope binds the name, holds no functions. -/
theorem lookup (frame : Frame) (text : String) :
    Keeps P size (Value.Sound P) (lookup frame text) := by
  intro m hm
  rw [Eval.lookup]
  split
  · rename_i v hv
    exact ⟨hm, hm.store.lookup hv⟩
  · split
    · exact ⟨hm, Value.Sound.of_nil rfl⟩
    · exact ⟨hm, trivial⟩

theorem assign (frame : Frame) (text : String) {v : Value} (hv : v.Sound P size) :
    Keeps P size (fun _ _ ↦ True) (assign frame text v) := by
  intro m hm
  refine ⟨⟨?_, hm.store.bind frame.scope text (hv.mono hm.size_le)⟩, trivial⟩
  exact Nat.le_trans hm.size_le (Nat.le_of_eq (Store.size_bind ..).symm)

/-- The scope of a call stands inside one that exists, and it exists from then on. -/
theorem enter {f : Closure} (hf : f.scope < size) {vs : List Value}
    (hvs : ∀ v ∈ vs, v.Sound P size) :
    Keeps P size (fun n frame ↦ frame.scope < n) (enter f vs) := by
  intro m hm
  have hsize : (m.store.add
      ⟨Dict.insertAll [] (f.parameters.zip vs), some f.scope⟩).size = m.store.size + 1 :=
    Store.size_add ..
  refine ⟨⟨?_, hm.store.add ?_ ?_⟩, ?_⟩
  · exact Nat.le_trans hm.size_le (hsize ▸ Nat.le_succ _)
  · intro outer houter
    cases houter
    exact Nat.lt_of_lt_of_le hf hm.size_le
  · intro p hp
    rcases Dict.mem_insertAll hp with hnil | hzip
    · cases hnil
    · exact (hvs p.2 (List.of_mem_zip hzip).2).mono hm.size_le
  · exact hsize ▸ Nat.lt_succ_self _

/-- A `return` in a call becomes the value of the call. -/
theorem boundary {run : Eval Value} (h : Keeps P size (Value.Sound P) run) :
    Keeps P size (Value.Sound P) (boundary run) := by
  intro m hm
  have hrun := h m hm
  rw [Eval.boundary]
  split
  · rename_i hstop
    rw [hstop] at hrun
    exact hrun
  · exact hrun

theorem callBuiltin (b : Builtin) {vs : List Value} (hvs : ∀ v ∈ vs, v.Sound P size) :
    Keeps P size (Value.Sound P) (callBuiltin b vs) := by
  have hresult : Keeps P size (Value.Sound P) (Eval.ofExcept (b.result vs)) := by
    refine ofExcept (fun w hw n hn ↦ ?_) fun e ↦ b.from_result
    exact (Value.hereditary_sound.builtin_result b hvs hw).mono hn
  rw [Eval.callBuiltin]
  split
  · exact fun m hm ↦ hresult _ ⟨hm.size_le, hm.store⟩
  · exact hresult

end Keeps

theorem keeps_requireKey (v : Value) :
    Keeps P size (fun _ _ ↦ True) (ofExcept (requireKey v)) :=
  .ofExcept (fun _ _ _ _ ↦ trivial) fun _ ↦ from_requireKey

/-! ## Every construct

The scope of the frame exists, and the nodes of the code have `P`.  The functions that are made on
the way have both from there. -/

mutual

/-- **Evaluation keeps the store sound.**  The number of scopes grows while the parts are
evaluated, and each part is given the number that the one before it left. -/
theorem keeps_expression : ∀ depth {size : Nat} {frame : Frame}, frame.scope < size →
    ∀ e : Expr, (∀ x ∈ e.nodes, P x) →
      Keeps P size (Value.Sound P) (expression depth frame e)
  | 0, _, _, _, _, _ => .exhaust
  | _ + 1, _, frame, _, .ident id, _ => .lookup frame id.name
  | _ + 1, _, _, _, .int _ _, _ | _ + 1, _, _, _, .string _ _, _ | _ + 1, _, _, _, .bool _ _, _ =>
    .pure fun _ _ ↦ Value.Sound.of_nil rfl
  | depth + 1, _, _, hframe, .unary t op a, hP => by
    rw [Expr.nodes, List.forall_mem_cons] at hP
    refine (keeps_expression depth hframe a hP.2).bind fun n hn v hv ↦ ?_
    exact .ofExcept (fun w hw _ _ ↦ Value.hereditary_sound.simple (isCompound_applyUnary hw))
      fun e ↦ from_applyUnary hP.1
  | depth + 1, _, _, hframe, .binary t op a b, hP => by
    rw [Expr.nodes, List.forall_mem_cons, List.forall_mem_append] at hP
    obtain ⟨hnode, ha, hb⟩ := hP
    refine (keeps_expression depth hframe a ha).bind fun n hn v hv ↦ ?_
    refine (keeps_expression depth (Nat.lt_of_lt_of_le hframe hn) b hb).bind fun _ _ w hw ↦ ?_
    exact .ofExcept (fun u hu _ _ ↦ Value.hereditary_sound.simple (isCompound_applyBinary hu))
      fun e ↦ from_applyBinary hnode
  | depth + 1, _, _, hframe, .cond _ c b none, hP => by
    rw [Expr.nodes, List.forall_mem_cons, List.forall_mem_append, Block.nodes_eq] at hP
    obtain ⟨-, hc, hb⟩ := hP
    refine (keeps_expression depth hframe c hc).bind fun n hn v hv ↦ ?_
    split
    · exact keeps_statements depth (Nat.lt_of_lt_of_le hframe hn) (.of_nil rfl) _ hb
    · exact .pure fun _ _ ↦ Value.Sound.of_nil rfl
  | depth + 1, _, _, hframe, .cond _ c b (some d), hP => by
    rw [Expr.nodes, List.forall_mem_cons, List.forall_mem_append, List.forall_mem_append,
      Block.nodes_eq, Block.nodes_eq] at hP
    obtain ⟨-, hc, hb, hd⟩ := hP
    refine (keeps_expression depth hframe c hc).bind fun n hn v hv ↦ ?_
    split
    · exact keeps_statements depth (Nat.lt_of_lt_of_le hframe hn) (.of_nil rfl) _ hb
    · exact keeps_statements depth (Nat.lt_of_lt_of_le hframe hn) (.of_nil rfl) _ hd
  | _ + 1, _, _, hframe, .function _ ids b, hP => by
    rw [Expr.nodes, List.forall_mem_cons] at hP
    exact .pure fun n hn ↦ Value.sound_function.2 ⟨Nat.lt_of_lt_of_le hframe hn, hP.2⟩
  | depth + 1, _, _, hframe, .call _ f as, hP => by
    rw [Expr.nodes, List.forall_mem_cons, List.forall_mem_append] at hP
    obtain ⟨-, hf, has⟩ := hP
    refine (keeps_expression depth hframe f hf).bind fun n hn v hv ↦ ?_
    refine (keeps_expressions depth (Nat.lt_of_lt_of_le hframe hn) as has).bind
      fun n' hn' vs hvs ↦ ?_
    -- the function was sound before the arguments were evaluated, so it is with more scopes
    exact keeps_apply depth (hv.mono hn') hvs
  | depth + 1, _, _, hframe, .array _ as, hP => by
    rw [Expr.nodes, List.forall_mem_cons] at hP
    refine (keeps_expressions depth hframe as hP.2).bind fun n hn vs hvs ↦ ?_
    exact .pure fun n' hn' ↦ (Value.sound_array.2 hvs).mono hn'
  | depth + 1, _, _, hframe, .index _ a i, hP => by
    rw [Expr.nodes, List.forall_mem_cons, List.forall_mem_append] at hP
    obtain ⟨-, ha, hi⟩ := hP
    refine (keeps_expression depth hframe a ha).bind fun n hn v hv ↦ ?_
    refine (keeps_expression depth (Nat.lt_of_lt_of_le hframe hn) i hi).bind fun n' hn' w hw ↦ ?_
    refine .ofExcept (fun u hu n'' hn'' ↦ ?_) fun e ↦ from_applyIndex
    exact (Value.hereditary_sound.applyIndex (hv.mono hn') hw hu).mono hn''
  | depth + 1, _, _, hframe, .hash _ ps, hP => by
    rw [Expr.nodes, List.forall_mem_cons] at hP
    refine (keeps_entries depth hframe (by simp) ps hP.2).bind fun n hn es hes ↦ ?_
    exact .pure fun n' hn' ↦ (Value.sound_hash.2 hes).mono hn'

theorem keeps_expressions : ∀ depth {size : Nat} {frame : Frame}, frame.scope < size →
    ∀ es : List Expr, (∀ x ∈ nodesOfExprs es, P x) →
      Keeps P size (fun n vs ↦ ∀ v ∈ vs, v.Sound P n) (expressions depth frame es)
  | 0, _, _, _, _, _ => .exhaust
  | _ + 1, _, _, _, [], _ => .pure fun _ _ ↦ by simp
  | depth + 1, _, _, hframe, e :: es, hP => by
    rw [nodesOfExprs, List.forall_mem_append] at hP
    refine (keeps_expression depth hframe e hP.1).bind fun n hn v hv ↦ ?_
    refine (keeps_expressions depth (Nat.lt_of_lt_of_le hframe hn) es hP.2).bind
      fun n' hn' vs hvs ↦ ?_
    refine .pure fun n'' hn'' ↦ List.forall_mem_cons.2 ⟨?_, fun w hw ↦ (hvs w hw).mono hn''⟩
    exact hv.mono (Nat.le_trans hn' hn'')

theorem keeps_entries : ∀ depth {size : Nat} {frame : Frame}, frame.scope < size →
    ∀ {es : List (Key × Value)}, (∀ p ∈ es, p.2.Sound P size) →
      ∀ ps : List (Expr × Expr), (∀ x ∈ nodesOfPairs ps, P x) →
        Keeps P size (fun n fs ↦ ∀ p ∈ fs, p.2.Sound P n) (entries depth frame es ps)
  | 0, _, _, _, _, _, _, _ => .exhaust
  | _ + 1, _, _, _, _, hes, [], _ => .pure fun _ hn p hp ↦ (hes p hp).mono hn
  | depth + 1, _, _, hframe, _, hes, (key, value) :: ps, hP => by
    rw [nodesOfPairs, List.forall_mem_append, List.forall_mem_append] at hP
    obtain ⟨hkey, hvalue, hps⟩ := hP
    refine (keeps_expression depth hframe key hkey).bind fun n hn v hv ↦ ?_
    refine (keeps_requireKey v).bind fun n₂ hn₂ k _ ↦ ?_
    have hframe₂ := Nat.lt_of_lt_of_le hframe (Nat.le_trans hn hn₂)
    refine (keeps_expression depth hframe₂ value hvalue).bind fun n₃ hn₃ w hw ↦ ?_
    refine keeps_entries depth (Nat.lt_of_lt_of_le hframe₂ hn₃) (fun p hp ↦ ?_) ps hps
    rcases Dict.mem_insert hp with rfl | hold
    · exact hw
    · exact (hes p hold).mono (Nat.le_trans (Nat.le_trans hn hn₂) hn₃)

theorem keeps_statement : ∀ depth {size : Nat} {frame : Frame}, frame.scope < size →
    ∀ s : Stmt, (∀ x ∈ s.nodes, P x) →
      Keeps P size (Value.Sound P) (statement depth frame s)
  | 0, _, _, _, _, _ => .exhaust
  | depth + 1, _, frame, hframe, .letStmt _ id e, hP => by
    rw [Stmt.nodes, List.forall_mem_cons] at hP
    refine (keeps_expression depth hframe e hP.2).bind fun n hn v hv ↦ ?_
    refine (Keeps.assign frame id.name hv).bind fun _ _ _ _ ↦ ?_
    exact .pure fun _ _ ↦ Value.Sound.of_nil rfl
  | _ + 1, _, _, _, .returnStmt _ none, _ => .halt fun _ _ ↦ Value.Sound.of_nil rfl
  | depth + 1, _, _, hframe, .returnStmt _ (some e), hP => by
    rw [Stmt.nodes, List.forall_mem_cons] at hP
    exact (keeps_expression depth hframe e hP.2).bind fun _ _ _ hv ↦ .halt fun _ hn ↦ hv.mono hn
  | depth + 1, _, _, hframe, .exprStmt _ e, hP => by
    rw [Stmt.nodes, List.forall_mem_cons] at hP
    exact keeps_expression depth hframe e hP.2

theorem keeps_statements : ∀ depth {size : Nat} {frame : Frame}, frame.scope < size →
    ∀ {last : Value}, last.Sound P size → ∀ ss : List Stmt, (∀ x ∈ nodesOfStmts ss, P x) →
      Keeps P size (Value.Sound P) (statements depth frame last ss)
  | 0, _, _, _, _, _, _, _ => .exhaust
  | _ + 1, _, _, _, _, hlast, [], _ => .pure fun _ hn ↦ hlast.mono hn
  | depth + 1, _, _, hframe, _, _, s :: ss, hP => by
    rw [nodesOfStmts, List.forall_mem_append] at hP
    refine (keeps_statement depth hframe s hP.1).bind fun n hn v hv ↦ ?_
    exact keeps_statements depth (Nat.lt_of_lt_of_le hframe hn) hv ss hP.2

theorem keeps_apply : ∀ depth {size : Nat} {f : Value}, f.Sound P size →
    ∀ {vs : List Value}, (∀ v ∈ vs, v.Sound P size) →
      Keeps P size (Value.Sound P) (apply depth f vs)
  | 0, _, _, _, _, _ => .exhaust
  | depth + 1, _, .function f, hf, vs, hvs => by
    have hclosure := Value.sound_function.1 hf
    rw [apply]
    split
    · refine (Keeps.enter hclosure.scope hvs).bind fun n _ frame hframe ↦ ?_
      refine (keeps_statements depth hframe (.of_nil rfl) _ ?_).boundary
      rw [← Block.nodes_eq]
      exact hclosure.body
    · exact .halt fun _ _ ↦ trivial
  | _ + 1, _, .builtin b, _, _, hvs => .callBuiltin b hvs
  | _ + 1, _, .int _, _, _, _ | _ + 1, _, .bool _, _, _, _ | _ + 1, _, .string _, _, _, _
  | _ + 1, _, .array _, _, _, _ | _ + 1, _, .hash _, _, _, _ | _ + 1, _, .null, _, _, _ =>
    .halt fun _ _ ↦ trivial

end

end Eval

/-! ## Whole programs -/

/-- Evaluating a program whose nodes have `P` keeps the store sound. -/
theorem Reading.keeps_eval (depth : Nat) {scope : ScopeId} {r : Reading}
    (hP : ∀ x ∈ r.program.nodes, P x) {m : Machine} (hm : m.store.Sound P)
    (hscope : scope < m.store.size) :
    (r.eval depth scope m).Post (fun v n ↦ n.Sound P m.store.size ∧ v.Sound P n.store.size)
      (fun e n ↦ n.Sound P m.store.size ∧ e.From P) True := by
  have hframe : (Frame.mk scope r.number).scope < m.store.size := hscope
  have hnull : Value.null.Sound P m.store.size := .of_nil rfl
  have hkeeps := Eval.keeps_statements depth hframe hnull r.program.statements hP m
    ⟨Nat.le_refl _, hm⟩
  exact hkeeps.unwound fun _ _ h ↦ h

/-- A program whose nodes have `P` keeps the store sound. -/
theorem Program.keeps_eval (depth : Nat) {scope : ScopeId} {p : Program} (hP : ∀ x ∈ p.nodes, P x)
    {m : Machine} (hm : m.store.Sound P) (hscope : scope < m.store.size) :
    (p.eval depth scope m).Post (fun v n ↦ n.Sound P m.store.size ∧ v.Sound P n.store.size)
      (fun e n ↦ n.Sound P m.store.size ∧ e.From P) True :=
  (m.keep p).1.keeps_eval depth hP (m := (m.keep p).2) hm hscope

end Sound

end MonkeyLang
