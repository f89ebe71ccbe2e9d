import Mathlib
import MonkeyLang.Proofs.Eval.Sound
import MonkeyLang.Proofs.Parse.Soundness
import MonkeyLang.Proofs.Session.Fresh

/-!
# What a client can do to the scopes

A client is a program around the language.  It makes scopes, inside others or not, copies its
handles to them, binds values, runs texts, and keeps programs that it evaluates as often as it
likes.  It also keeps the values that came out.

Whatever it does, the store stays well formed (`client_wellFormed`): references lead to scopes that
exist and outward to older ones, so that there is an end to every search for a name, and the scope
around a scope never changes.

## Design

An action of a client is data (`ClientAction`), and `Client.act` carries it out on one machine, so
that what a client does is a list that a theorem can quantify over.  An action that is not possible
leads nowhere: a handle that the client does not have, a value that holds a function of some other
machine, or an evaluation that does not end within its depth.  The bound on the depth disappears in
`Client.Reaches`, where any bound will do.

`Client.Does` says once what each action does.  Everything that actions preserve is proved by cases
of it, and by induction of any number of them.  The most general invariant of this kind is
`Client.Sound P`, about a property `P` of nodes that all code of the client has.  With the property
that always holds it is well-formedness alone; with others it says that some code never gets into a
session.

A program that is kept is a `Reading`: it has the number that it was given when it was read, and
the functions that its evaluations make have this number in their origins.  Two evaluations of one
reading share it, two readings of one text do not.

The client cannot look into a function or make one up from parts of others, although nothing in
`ClientAction.set` forbids it to bind a function that no evaluation made.  The invariants here hold
in spite of that.  Where it matters which functions there are, as it does for equality, the client
has to be an honest one.
-/

set_option autoImplicit false

namespace MonkeyLang

/-- A text with errors is not run, and else what was read of it is evaluated. -/
theorem run_cases (depth : Nat) (scope : ScopeId) (text : String) (m : Machine) :
    (∃ errors, run depth scope text m = .stop (.parse errors) m) ∨
      run depth scope text m = ((parse text).program.eval depth scope m).mapReason .eval := by
  cases hparse : parseProgram text with
  | error errors => exact .inl ⟨errors, run_of_error hparse depth scope m⟩
  | ok p =>
    obtain rfl : (parse text).program = p := (parseProgram_eq_ok.1 hparse).2
    exact .inr (run_of_ok hparse depth scope m)

/-! ## Clients -/

/-- The functions in a value were made in scopes of the store.  A client can bind such a value,
whether it got the value from a program or made it up. -/
def Value.LivesIn (v : Value) (s : Store) : Prop := ∀ f ∈ v.closures, f.scope < s.size

instance (v : Value) (s : Store) : Decidable (v.LivesIn s) :=
  inferInstanceAs (Decidable (∀ f ∈ v.closures, f.scope < s.size))

/-- A machine with what a client has of it: the handles to its scopes, the values that it was
given, and the programs that it read and kept.  Values and programs are kept for good, as nothing
ever takes them away. -/
structure Client where
  machine : Machine
  handles : List ScopeId
  values : List Value
  programs : List Reading

/-- What a client does.  Handles and programs are counted from zero.  Looking up names and
comparing values are no actions, since they change nothing. -/
inductive ClientAction where
  /-- Make a scope inside no other one. -/
  | newScope
  /-- Make a scope inside that of a handle. -/
  | enclose (handle : Nat)
  /-- Copy a handle. -/
  | copy (handle : Nat)
  /-- Bind a value in the scope of a handle. -/
  | set (handle : Nat) (name : String) (value : Value)
  /-- Read a text and run it, if nothing is wrong with it. -/
  | run (handle : Nat) (text : String)
  /-- Read a text and evaluate what was read of it, whatever was wrong. -/
  | eval (handle : Nat) (text : String)
  /-- Read a text and keep what was read of it, whatever was wrong. -/
  | keep (text : String)
  /-- Evaluate a program that was kept, for the first time or once more. -/
  | evalKept (handle : Nat) (program : Nat)

namespace Client

/-- Nothing was done yet. -/
def start : Client := ⟨.initial, [], [], []⟩

/-- Make a scope and keep the handle to it. -/
def newScope (c : Client) (outer : Option ScopeId) : Client :=
  { c with
    machine := (c.machine.newScope outer).2
    handles := c.handles ++ [(c.machine.newScope outer).1] }

/-- Keep a program that was read. -/
def keep (c : Client) (p : Program) : Client :=
  { c with
    machine := (c.machine.keep p).2
    programs := c.programs ++ [(c.machine.keep p).1] }

/-- Keep what an evaluation left and, if there is one, its value.  An evaluation that fails leaves
a machine too, with all that happened before the failure. -/
def finish {ε : Type} (c : Client) : Outcome ε Machine Value → Option Client
  | .done v m => some { c with machine := m, values := c.values ++ [v] }
  | .stop _ m => some { c with machine := m }
  | .exhausted => none

/-- The client after an action.  There is no such client if an evaluation does not end within the
depth, if there is no such handle or program, or if a value is none of this machine. -/
def act (depth : Nat) (c : Client) : ClientAction → Option Client
  | .newScope => some (c.newScope none)
  | .enclose k => do
    let scope ← c.handles[k]?
    return c.newScope (some scope)
  | .copy k => do
    let scope ← c.handles[k]?
    return { c with handles := c.handles ++ [scope] }
  | .set k name v => do
    let scope ← c.handles[k]?
    if v.LivesIn c.machine.store then
      some { c with machine := c.machine.set scope name v }
    else
      none
  | .run k text => do
    let scope ← c.handles[k]?
    c.finish (run depth scope text c.machine)
  | .eval k text => do
    let scope ← c.handles[k]?
    c.finish ((parse text).program.eval depth scope c.machine)
  | .keep text => some (c.keep (parse text).program)
  | .evalKept k j => do
    let scope ← c.handles[k]?
    let r ← c.programs[j]?
    c.finish (r.eval depth scope c.machine)

/-- The client after some actions, one after the other. -/
def acts (depth : Nat) : List ClientAction → Client → Option Client
  | [], c => some c
  | action :: rest, c => do
    let c ← c.act depth action
    acts depth rest c

/-- The client `c'` is what `c` comes to by the actions, in which all evaluations end.  The bound
is the same for all of them, which is no restriction: the largest that was needed is enough for
all. -/
def Reaches (c : Client) (actions : List ClientAction) (c' : Client) : Prop :=
  ∃ depth, acts depth actions c = some c'

/-! ## What an action does

An action that is possible leads to one client, and `Does` says to which.  It is a relation because
evaluations may end in several ways, and because an action is looked at from its end: the client
after it is given, and one asks where it came from. -/

/-- What an evaluation leaves to a client. -/
theorem finish_eq_some {ε : Type} {c c' : Client} {o : Outcome ε Machine Value}
    (h : c.finish o = some c') :
    (∃ v m, o = .done v m ∧ c' = { c with machine := m, values := c.values ++ [v] }) ∨
      ∃ e m, o = .stop e m ∧ c' = { c with machine := m } := by
  cases o with
  | done v m => exact .inl ⟨v, m, rfl, (Option.some.inj h).symm⟩
  | stop e m => exact .inr ⟨e, m, rfl, (Option.some.inj h).symm⟩
  | exhausted => cases h

theorem finish_mapReason {ε ε' : Type} (f : ε → ε') (c : Client) (o : Outcome ε Machine Value) :
    c.finish (o.mapReason f) = c.finish o := by
  cases o <;> rfl

/-- It makes no difference which machine the client had before. -/
theorem finish_machine {ε : Type} (c : Client) (m : Machine) (o : Outcome ε Machine Value) :
    finish { c with machine := m } o = c.finish o := by
  cases o <;> rfl

/-- To evaluate a program that was just read is to read it and then to evaluate the reading. -/
theorem finish_eval (depth : Nat) (scope : ScopeId) (c : Client) (p : Program) :
    c.finish (p.eval depth scope c.machine) =
      finish { c with machine := (c.machine.keep p).2 }
        ((c.machine.keep p).1.eval depth scope (c.machine.keep p).2) := by
  rw [finish_machine]
  rfl

/-- What an action that is possible does: a constructor for each way it can go.  The function says
how to find the next client, and this relation says what it can be.  Proofs about actions go by
cases on the relation. -/
inductive Does (depth : Nat) (c : Client) : ClientAction → Client → Prop
  | newScope : Does depth c .newScope (c.newScope none)
  | enclose {k : Nat} {scope : ScopeId} (hscope : scope ∈ c.handles) :
    Does depth c (.enclose k) (c.newScope (some scope))
  | copy {k : Nat} {scope : ScopeId} (hscope : scope ∈ c.handles) :
    Does depth c (.copy k) { c with handles := c.handles ++ [scope] }
  | set {k : Nat} {name : String} {v : Value} {scope : ScopeId} (hscope : scope ∈ c.handles)
    (hlives : v.LivesIn c.machine.store) :
    Does depth c (.set k name v) { c with machine := c.machine.set scope name v }
  /-- A text with errors is not run. -/
  | refused {k : Nat} {text : String} : Does depth c (.run k text) c
  | run {k : Nat} {text : String} {scope : ScopeId} {c' : Client} (hscope : scope ∈ c.handles)
    (hfinish : c.finish ((parse text).program.eval depth scope c.machine) = some c') :
    Does depth c (.run k text) c'
  | eval {k : Nat} {text : String} {scope : ScopeId} {c' : Client} (hscope : scope ∈ c.handles)
    (hfinish : c.finish ((parse text).program.eval depth scope c.machine) = some c') :
    Does depth c (.eval k text) c'
  | keep {text : String} : Does depth c (.keep text) (c.keep (parse text).program)
  | evalKept {k j : Nat} {scope : ScopeId} {r : Reading} {c' : Client} (hscope : scope ∈ c.handles)
    (hr : r ∈ c.programs) (hfinish : c.finish (r.eval depth scope c.machine) = some c') :
    Does depth c (.evalKept k j) c'

/-- There is no other way for an action to go. -/
theorem does_of_act {depth : Nat} {c c' : Client} {action : ClientAction}
    (h : c.act depth action = some c') : c.Does depth action c' := by
  cases action with
  | newScope =>
    cases h
    exact .newScope
  | enclose k =>
    obtain ⟨scope, hscope, h⟩ := Option.bind_eq_some_iff.1 h
    cases h
    exact .enclose (List.mem_of_getElem? hscope)
  | copy k =>
    obtain ⟨scope, hscope, h⟩ := Option.bind_eq_some_iff.1 h
    cases h
    exact .copy (List.mem_of_getElem? hscope)
  | set k name v =>
    obtain ⟨scope, hscope, h⟩ := Option.bind_eq_some_iff.1 h
    split at h
    · rename_i hv
      cases h
      exact .set (List.mem_of_getElem? hscope) hv
    · cases h
  | run k text =>
    obtain ⟨scope, hscope, h⟩ := Option.bind_eq_some_iff.1 h
    rcases run_cases depth scope text c.machine with ⟨errors, hrun⟩ | hrun
    · rw [hrun] at h
      cases h
      exact .refused
    · rw [hrun, finish_mapReason] at h
      exact .run (List.mem_of_getElem? hscope) h
  | eval k text =>
    obtain ⟨scope, hscope, h⟩ := Option.bind_eq_some_iff.1 h
    exact .eval (List.mem_of_getElem? hscope) h
  | keep text =>
    cases h
    exact .keep
  | evalKept k j =>
    obtain ⟨scope, hscope, h⟩ := Option.bind_eq_some_iff.1 h
    obtain ⟨r, hr, h⟩ := Option.bind_eq_some_iff.1 h
    exact .evalKept (List.mem_of_getElem? hscope) (List.mem_of_getElem? hr) h

/-- Actions are done one after the other. -/
theorem acts_cons {depth : Nat} {action : ClientAction} {rest : List ClientAction} {c c' : Client}
    (h : acts depth (action :: rest) c = some c') :
    ∃ c₁, c.act depth action = some c₁ ∧ acts depth rest c₁ = some c' :=
  Option.bind_eq_some_iff.1 h

end Client

/-! ## Sound clients

An invariant of machines becomes one of clients by saying the same of all that a client holds.  The
action that binds a value is the only one that can bring in something new besides code from texts.
-/

/-- The code that an action brings in has `P` in all nodes.  This is about texts, and about values
that are bound from outside. -/
def ClientAction.Brings (P : Node → Prop) : ClientAction → Prop
  | .set _ _ v => ∀ f ∈ v.closures, ∀ x ∈ f.body.nodes, P x
  | .run _ text | .eval _ text | .keep text => ∀ x ∈ (parse text).program.nodes, P x
  | .newScope | .enclose _ | .copy _ | .evalKept _ _ => True

/-- The store of a client is sound, its handles are those of scopes, its values are sound, and the
programs that it keeps have nodes with `P` only. -/
structure Client.Sound (P : Node → Prop) (c : Client) : Prop where
  store : c.machine.store.Sound P
  handles : ∀ scope ∈ c.handles, scope < c.machine.store.size
  values : ∀ v ∈ c.values, v.Sound P c.machine.store.size
  programs : ∀ r ∈ c.programs, ∀ x ∈ r.program.nodes, P x

namespace Client.Sound

variable {P : Node → Prop} {c c' : Client}

theorem start : Client.start.Sound P where
  store := .empty
  handles := by simp [Client.start]
  values := by simp [Client.start]
  programs := by simp [Client.start]

/-- A client that goes on with a larger sound store. -/
theorem onward (h : c.Sound P) {m : Machine} (hm : m.Sound P c.machine.store.size) :
    Client.Sound P { c with machine := m } where
  store := hm.store
  handles scope hscope := Nat.lt_of_lt_of_le (h.handles scope hscope) hm.size_le
  values v hv := (h.values v hv).mono hm.size_le
  programs := h.programs

/-- A handle to a scope that exists. -/
theorem addHandle (h : c.Sound P) {scope : ScopeId} (hscope : scope < c.machine.store.size) :
    Client.Sound P { c with handles := c.handles ++ [scope] } where
  store := h.store
  handles := List.forall_mem_append.2 ⟨h.handles, List.forall_mem_singleton.2 hscope⟩
  values := h.values
  programs := h.programs

theorem addValue (h : c.Sound P) {v : Value} (hv : v.Sound P c.machine.store.size) :
    Client.Sound P { c with values := c.values ++ [v] } where
  store := h.store
  handles := h.handles
  values := List.forall_mem_append.2 ⟨h.values, List.forall_mem_singleton.2 hv⟩
  programs := h.programs

theorem newScope (h : c.Sound P) {outer : Option ScopeId}
    (houter : ∀ scope, outer = some scope → scope ∈ c.handles) : (c.newScope outer).Sound P := by
  have hsize : (c.machine.newScope outer).2.store.size = c.machine.store.size + 1 :=
    Store.size_add ..
  have hstore : (c.machine.newScope outer).2.Sound P c.machine.store.size := by
    refine ⟨by omega, h.store.add (fun scope hscope ↦ ?_) (by simp)⟩
    exact h.handles scope (houter scope hscope)
  refine (h.onward hstore).addHandle ?_
  exact hsize ▸ Nat.lt_succ_self _

theorem set (h : c.Sound P) (scope : ScopeId) (name : String) {v : Value}
    (hv : v.Sound P c.machine.store.size) :
    Client.Sound P { c with machine := c.machine.set scope name v } :=
  h.onward ⟨Nat.le_of_eq (Store.size_bind ..).symm, h.store.bind scope name hv⟩

/-- Reading a program does not touch the store. -/
theorem read (h : c.Sound P) (p : Program) :
    Client.Sound P { c with machine := (c.machine.keep p).2 } :=
  h.onward ⟨Nat.le_refl _, h.store⟩

/-- A program that is kept is code like any other. -/
theorem keep (h : c.Sound P) {p : Program} (hP : ∀ x ∈ p.nodes, P x) : (c.keep p).Sound P where
  store := h.store
  handles := h.handles
  values := h.values
  programs := List.forall_mem_append.2 ⟨h.programs, List.forall_mem_singleton.2 hP⟩

/-- An evaluation keeps a client sound and gives it a sound value. -/
theorem eval (h : c.Sound P) {depth : Nat} {scope : ScopeId} (hscope : scope ∈ c.handles)
    {r : Reading} (hP : ∀ x ∈ r.program.nodes, P x)
    (hfinish : c.finish (r.eval depth scope c.machine) = some c') : c'.Sound P := by
  have hkeeps := r.keeps_eval depth hP h.store (h.handles scope hscope)
  rcases finish_eq_some hfinish with ⟨v, m, heval, rfl⟩ | ⟨e, m, heval, rfl⟩
  · rw [heval] at hkeeps
    exact (h.onward hkeeps.1).addValue hkeeps.2
  · rw [heval] at hkeeps
    exact h.onward hkeeps.1

/-- **One action keeps a client sound** if it brings in code with `P` only.  By cases on what the
action does, and each case is one of the lemmas above. -/
theorem act (h : c.Sound P) {depth : Nat} {action : ClientAction} (hbrings : action.Brings P)
    (hact : c.act depth action = some c') : c'.Sound P := by
  cases does_of_act hact with
  | newScope => exact h.newScope nofun
  | enclose hscope =>
    refine h.newScope ?_
    rintro _ ⟨⟩
    exact hscope
  | copy hscope => exact h.addHandle (h.handles _ hscope)
  | set hscope hlives => exact h.set _ _ fun f hf ↦ ⟨hlives f hf, hbrings f hf⟩
  | refused => exact h
  | run hscope hfinish | eval hscope hfinish =>
    rw [finish_eval] at hfinish
    refine (h.read _).eval hscope ?_ hfinish
    exact hbrings
  | keep => exact h.keep hbrings
  | evalKept hscope hr hfinish => exact h.eval hscope (h.programs _ hr) hfinish

/-- Any number of actions keeps a client sound. -/
theorem acts {depth : Nat} {actions : List ClientAction} (h : c.Sound P)
    (hbrings : ∀ action ∈ actions, action.Brings P)
    (hacts : Client.acts depth actions c = some c') : c'.Sound P := by
  induction actions generalizing c with
  | nil =>
    cases hacts
    exact h
  | cons action rest ih =>
    obtain ⟨c₁, hact, hrest⟩ := acts_cons hacts
    rw [List.forall_mem_cons] at hbrings
    exact ih (h.act hbrings.1 hact) hbrings.2 hrest

end Client.Sound

/-- Every client that can be reached has a well-formed store. -/
theorem Client.Reaches.sound {actions : List ClientAction} {c : Client}
    (h : Client.start.Reaches actions c) : c.Sound fun _ ↦ True := by
  obtain ⟨depth, hacts⟩ := h
  refine Client.Sound.start.acts (fun action _ ↦ ?_) hacts
  cases action <;> simp [ClientAction.Brings]

/-! ## The scopes around a scope -/

namespace Store

/-- The store `t` has all scopes of `s`, and they stand inside the same scopes.  That a scope never
moves is no consequence of the store being well formed.  It is seen step by step, from what is
written. -/
structure SameOutward (s t : Store) : Prop where
  grows : s.size ≤ t.size
  outer : ∀ id < s.size, (t.scope? id).map Scope.outer = (s.scope? id).map Scope.outer

theorem SameOutward.refl (s : Store) : s.SameOutward s := ⟨Nat.le_refl _, fun _ _ ↦ rfl⟩

theorem SameOutward.trans {s t u : Store} (hst : s.SameOutward t) (htu : t.SameOutward u) :
    s.SameOutward u where
  grows := Nat.le_trans hst.grows htu.grows
  outer id hid :=
    (htu.outer id (Nat.lt_of_lt_of_le hid hst.grows)).trans (hst.outer id hid)

theorem Writes.sameOutward {s t : Store} {scope : ScopeId} {names : List String}
    (h : s.Writes scope names t) : s.SameOutward t where
  grows := h.grows
  outer id hid := by
    by_cases hscope : id = scope
    · rw [hscope, h.outer]
    · rw [h.others id hid hscope]

theorem sameOutward_add (s : Store) (content : Scope) : s.SameOutward (s.add content) where
  grows := by
    rw [size_add]
    omega
  outer id hid := by rw [scope?_add s content hid]

/-- The scopes seen from a scope, from the inside out.  It is a list, and so it is finite by its
form. -/
inductive Chain (s : Store) : ScopeId → List ScopeId → Prop
  | outermost {id : ScopeId} {scope : Scope} (hscope : s.scope? id = some scope)
      (houter : scope.outer = none) : Chain s id [id]
  | inside {id outer : ScopeId} {scope : Scope} {ids : List ScopeId}
      (hscope : s.scope? id = some scope) (houter : scope.outer = some outer)
      (hchain : Chain s outer ids) : Chain s id (id :: ids)

/-- Looking for a name from a scope outward ends with this result.  Nothing bounds the search but
the scopes themselves. -/
inductive Finds (s : Store) (name : String) : ScopeId → Option Value → Prop
  | here {id : ScopeId} {v : Value} (hbinding : s.binding? id name = some v) :
      Finds s name id (some v)
  | outermost {id : ScopeId} {scope : Scope} (hscope : s.scope? id = some scope)
      (hbinding : s.binding? id name = none) (houter : scope.outer = none) : Finds s name id none
  | inside {id outer : ScopeId} {scope : Scope} {result : Option Value}
      (hscope : s.scope? id = some scope) (hbinding : s.binding? id name = none)
      (houter : scope.outer = some outer) (hfinds : Finds s name outer result) :
      Finds s name id result

namespace WellFormed

variable {s : Store}

/-- Seen from every scope there are finitely many scopes, each older than the one before.  By
induction on the number of the scope, as the one around it has a smaller number. -/
theorem exists_chain (h : s.WellFormed) {id : ScopeId} (hid : id < s.size) :
    ∃ ids, s.Chain id ids ∧ ids.Pairwise (· > ·) ∧ ∀ i ∈ ids, i ≤ id := by
  induction id using Nat.strongRecOn with
  | ind id ih =>
    obtain ⟨scope, hscope⟩ := exists_scope? hid
    cases houter : scope.outer with
    | none => exact ⟨[id], .outermost hscope houter, by simp, by simp⟩
    | some outer =>
      have hlt : outer < id := h.older hscope houter
      obtain ⟨ids, hchain, hpairwise, hle⟩ := ih outer hlt (Nat.lt_trans hlt hid)
      refine ⟨id :: ids, .inside hscope houter hchain, List.pairwise_cons.2 ⟨?_, hpairwise⟩, ?_⟩
      · exact fun i hi ↦ Nat.lt_of_le_of_lt (hle i hi) hlt
      · refine List.forall_mem_cons.2 ⟨Nat.le_refl _, fun i hi ↦ ?_⟩
        exact Nat.le_trans (hle i hi) (Nat.le_of_lt hlt)

/-- Looking for a name ends, with what `lookup` gives. -/
theorem finds_lookup (h : s.WellFormed) (name : String) {id : ScopeId} (hid : id < s.size) :
    s.Finds name id (s.lookup id name) := by
  induction id using Nat.strongRecOn with
  | ind id ih =>
    obtain ⟨scope, hscope⟩ := exists_scope? hid
    have hbinding : s.binding? id name = Dict.get? scope.bindings name := by
      rw [binding?, hscope]
      rfl
    rw [lookup, hscope]
    dsimp only
    cases hget : Dict.get? scope.bindings name with
    | some v => exact .here (hbinding.trans hget)
    | none =>
      dsimp only
      cases houter : scope.outer with
      | none => exact .outermost hscope (hbinding.trans hget) houter
      | some outer =>
        have hlt : outer < id := h.older hscope houter
        dsimp only
        rw [if_pos hlt]
        exact .inside hscope (hbinding.trans hget) houter (ih outer hlt (Nat.lt_trans hlt hid))

end WellFormed

end Store

namespace Client.Sound

variable {P : Node → Prop} {c c' : Client}

/-- An evaluation leaves scopes inside the scopes that they stand in. -/
theorem sameOutward_eval (h : c.Sound P) {depth : Nat} {scope : ScopeId}
    (hscope : scope ∈ c.handles) {r : Reading}
    (hfinish : c.finish (r.eval depth scope c.machine) = some c') :
    c.machine.store.SameOutward c'.machine.store := by
  have hwithin := r.within_eval depth (h.handles scope hscope)
  rcases finish_eq_some hfinish with ⟨v, m, heval, rfl⟩ | ⟨e, m, heval, rfl⟩
  · rw [heval] at hwithin
    exact hwithin.sameOutward
  · rw [heval] at hwithin
    exact hwithin.sameOutward

/-- An action leaves scopes inside the scopes that they stand in. -/
theorem sameOutward_act (h : c.Sound P) {depth : Nat} {action : ClientAction}
    (hact : c.act depth action = some c') : c.machine.store.SameOutward c'.machine.store := by
  cases does_of_act hact with
  | newScope | enclose => exact Store.sameOutward_add ..
  | copy | refused | keep => exact .refl _
  | set => exact (Store.Writes.bind c.machine.store _ _ _).sameOutward
  | run hscope hfinish | eval hscope hfinish =>
    rw [finish_eval] at hfinish
    exact (h.read _).sameOutward_eval hscope hfinish
  | evalKept hscope hr hfinish => exact h.sameOutward_eval hscope hfinish

end Client.Sound

/-- Any number of actions leaves scopes where they are. -/
theorem Client.sameOutward_acts {depth : Nat} {actions : List ClientAction} {c c' : Client}
    (h : c.Sound fun _ ↦ True) (hacts : acts depth actions c = some c') :
    c.machine.store.SameOutward c'.machine.store := by
  induction actions generalizing c with
  | nil =>
    cases hacts
    exact .refl _
  | cons action rest ih =>
    obtain ⟨c₁, hact, hrest⟩ := acts_cons hacts
    have hbrings : action.Brings fun _ ↦ True := by cases action <;> simp [ClientAction.Brings]
    exact (h.sameOutward_act hact).trans (ih (h.act hbrings hact) hrest)

/-! ## Every client -/

/-- **The store stays well formed, whatever a client does.**

* The scope around a scope is an older one, and the functions that the store holds were made in
  scopes that exist.  So do the scopes of all handles, and the functions in the values that the
  client was given were made in scopes that exist.
* From every scope there are finitely many scopes outward, each older than the one before, and
  looking for a name through them ends.
* Whatever the client does later, each of the scopes still stands inside the same scope. -/
theorem client_wellFormed {actions : List ClientAction} {c : Client}
    (h : Client.start.Reaches actions c) :
    c.machine.store.WellFormed ∧
      (∀ scope ∈ c.handles, scope < c.machine.store.size) ∧
      (∀ v ∈ c.values, v.LivesIn c.machine.store) ∧
      (∀ id < c.machine.store.size,
        (∃ ids, c.machine.store.Chain id ids ∧ ids.Pairwise (· > ·)) ∧
          ∀ name, c.machine.store.Finds name id (c.machine.store.lookup id name)) ∧
      ∀ later c', c.Reaches later c' → ∀ id < c.machine.store.size,
        (c'.machine.store.scope? id).map Scope.outer =
          (c.machine.store.scope? id).map Scope.outer := by
  have hsound := h.sound
  have hwellFormed := hsound.store.wellFormed
  refine ⟨hwellFormed, hsound.handles, fun v hv f hf ↦ (hsound.values v hv f hf).scope,
    fun id hid ↦ ⟨?_, fun name ↦ hwellFormed.finds_lookup name hid⟩, ?_⟩
  · obtain ⟨ids, hchain, hpairwise, -⟩ := hwellFormed.exists_chain hid
    exact ⟨ids, hchain, hpairwise⟩
  · rintro later c' ⟨depth, hacts⟩
    exact (Client.sameOutward_acts hsound hacts).outer

/-- The first scope holds a function that was made there, so the store has a cycle.  The value is an
array with a function that was made in the scope of a call, and there are two handles to the scope
inside the first one. -/
theorem client_wellFormed_cycle :
    ∃ c, Client.start.Reaches
        [.newScope, .run 0 "let f=fn()\x7bfn()\x7bf\x7d\x7d;[f()]", .enclose 0, .copy 1,
          .set 2 "a" (.int 1)] c ∧
      c.machine.store.size = 3 ∧ c.handles = [0, 2, 2] ∧
      c.values.map (fun v ↦ v.closures.map Closure.scope) = [[1]] ∧
      c.machine.store.WellFormed ∧ (∀ v ∈ c.values, v.LivesIn c.machine.store) ∧
      (∃ ids, c.machine.store.Chain 2 ids ∧ ids.Pairwise (· > ·)) ∧
      c.machine.store.Finds "f" 2 (c.machine.store.lookup 2 "f") := by
  have hacts : (Client.acts 10
      [.newScope, .run 0 "let f=fn()\x7bfn()\x7bf\x7d\x7d;[f()]", .enclose 0, .copy 1,
        .set 2 "a" (.int 1)] Client.start).map
      (fun c ↦ (c.machine.store.size, c.handles,
        c.values.map fun v ↦ v.closures.map Closure.scope)) = some (3, [0, 2, 2], [[1]]) := by cbv
  obtain ⟨c, hc, hseen⟩ := Option.map_eq_some_iff.1 hacts
  obtain ⟨hsize, hseen⟩ := Prod.mk.inj hseen
  obtain ⟨hhandles, hvalues⟩ := Prod.mk.inj hseen
  have hreaches : Client.start.Reaches _ c := ⟨10, hc⟩
  obtain ⟨hwellFormed, -, hlives, hscopes, -⟩ := client_wellFormed hreaches
  obtain ⟨hchain, hfinds⟩ := hscopes 2 (by omega)
  exact ⟨c, hreaches, hsize, hhandles, hvalues, hwellFormed, hlives, hchain, hfinds "f"⟩

end MonkeyLang
