import Mathlib.Logic.Relation
import MonkeyLang.Proofs.Session.Client

/-!
# What handles see

Scopes are made, handles to them are copied, and names are bound through the handles, all in any
order.  What a handle sees of this can be told from the record of the actions alone:

* Handles share a scope when one comes from the other by copies (`History.Copies`).
* The handles seen from a handle outward are those that scopes were made inside of
  (`History.Outward`).
* The value of a name is the one that was bound last in the nearest of these scopes in which the
  name was ever bound (`History.Nearest`).

None of these definitions speaks of a store.  `History.handles_see` says that a client whose
actions are recorded sees just that, and which handles see a difference when one more name is
bound.

The proof reads the record with the scopes that the handles stand for (`History.Tracks`).  One
action keeps the record right (`History.Tracks.operate`), and so do any number of them.

## A specification without scopes

A handle is a number for the client, and a scope is a number for the store.  The record only has
handles, and that two of them share a scope is defined by how they were made: the relation is
generated by the copies, and not by comparing anything.  So the specification cannot repeat a
mistake of the store.  That the handles outward are unique up to copies is not needed, since what
is said holds for every list of them (`∀ ks, h.Outward k ks`), and there always is one.

## What is looked at

A name is looked up in the nearest scope where it was *ever* bound, because no name is ever
unbound.  Binding a name can only be seen from handles that have its scope on their way outward,
and not past a nearer scope with the same name.  It is an upper bound: a value that is bound once
more may be the one that was there.

Evaluation is left out.  A run binds names in one scope, as `MonkeyLang.Proofs.Eval.Frame` says,
and makes scopes that no handle stands for.
-/

set_option autoImplicit false

namespace MonkeyLang

/-! ## Actions with handles -/

/-- What is done with handles, which are counted from zero in the order in which they are made. -/
inductive HandleAction where
  /-- Make a scope inside no other one. -/
  | new
  /-- Make a scope inside that of a handle. -/
  | enclose (handle : Nat)
  /-- Copy a handle. -/
  | copy (handle : Nat)
  /-- Bind a name in the scope of a handle. -/
  | set (handle : Nat) (name : String) (value : Value)

/-- Whether an action makes a handle. -/
def HandleAction.makes : HandleAction → Bool
  | new | enclose _ | copy _ => true
  | set _ _ _ => false

/-- The handle that an action is done with. -/
def HandleAction.handle? : HandleAction → Option Nat
  | new => none
  | enclose k | copy k | set k _ _ => some k

/-- The record of actions, the first one in front. -/
abbrev History : Type := List HandleAction

/-- Every action is done with a handle that is there by then, where so many were there before. -/
def History.Possible : Nat → History → Prop
  | _, [] => True
  | count, action :: rest =>
    (∀ k ∈ action.handle?, k < count) ∧
      History.Possible (if action.makes then count + 1 else count) rest

namespace Client

/-- The client after an action with handles, if it has them. -/
def operate (c : Client) : HandleAction → Option Client
  | .new => some (c.newScope none)
  | .enclose k => do
    let scope ← c.handles[k]?
    return c.newScope (some scope)
  | .copy k => do
    let scope ← c.handles[k]?
    return { c with handles := c.handles ++ [scope] }
  | .set k name v => do
    let scope ← c.handles[k]?
    return { c with machine := c.machine.set scope name v }

/-- The client after some actions, one after the other. -/
def operates : History → Client → Option Client
  | [], c => some c
  | action :: rest, c => do
    let c ← c.operate action
    operates rest c

/-- The value of a name seen through a handle. -/
def get? (c : Client) (k : Nat) (name : String) : Option Value := do
  let scope ← c.handles[k]?
  c.machine.get? scope name

/-- Whether two handles are there and stand for the same scope. -/
def sameScope (c : Client) (j k : Nat) : Bool :=
  match c.handles[j]?, c.handles[k]? with
  | some s, some t => s == t
  | _, _ => false

theorem exists_operate {c : Client} {action : HandleAction}
    (h : ∀ k ∈ action.handle?, k < c.handles.length) :
    ∃ c', c.operate action = some c' ∧
      c'.handles.length = if action.makes then c.handles.length + 1 else c.handles.length := by
  cases action with
  | new => exact ⟨_, rfl, List.length_append⟩
  | enclose k =>
    refine ⟨_, Option.bind_eq_some_iff.2 ⟨_, List.getElem?_eq_getElem (h k rfl), rfl⟩, ?_⟩
    exact List.length_append
  | copy k =>
    refine ⟨_, Option.bind_eq_some_iff.2 ⟨_, List.getElem?_eq_getElem (h k rfl), rfl⟩, ?_⟩
    exact List.length_append
  | set k name v =>
    exact ⟨_, Option.bind_eq_some_iff.2 ⟨_, List.getElem?_eq_getElem (h k rfl), rfl⟩, rfl⟩

/-- Nothing else can go wrong. -/
theorem exists_operates {c : Client} {h : History} (hpossible : h.Possible c.handles.length) :
    ∃ c', operates h c = some c' := by
  induction h generalizing c with
  | nil => exact ⟨c, rfl⟩
  | cons action rest ih =>
    obtain ⟨hthere, hrest⟩ := hpossible
    obtain ⟨c₁, hoperate, hlength⟩ := exists_operate hthere
    rw [← hlength] at hrest
    obtain ⟨c', hc'⟩ := ih hrest
    exact ⟨c', Option.bind_eq_some_iff.2 ⟨c₁, hoperate, hc'⟩⟩

end Client

/-! ## One scope at a time

Looking up a name is a recursion along the scopes outward.  The lemmas take one step of it. -/

/-- A name is looked up in one scope, and if it is not bound there in the scope around it. -/
theorem Store.lookup_eq (s : Store) (id : ScopeId) (name : String) :
    s.lookup id name = (s.binding? id name).or
      (match (s.scope? id).bind Scope.outer with
        | some outer => if outer < id then s.lookup outer name else none
        | none => none) := by
  rw [lookup, binding?]
  cases s.scope? id with
  | none => rfl
  | some scope =>
    dsimp only [Option.bind_some]
    cases Dict.get? scope.bindings name with
    | some v => rfl
    | none => cases scope.outer <;> rfl

/-- Binding a name changes what it is bound to in one scope, and nothing else. -/
theorem Store.binding?_bind (s : Store) {id : ScopeId} (hid : id < s.size) (other : ScopeId)
    (name name' : String) (v : Value) :
    (s.bind id name v).binding? other name' =
      if name = name' ∧ id = other then some v else s.binding? other name' := by
  rw [binding?, binding?, scope?_bind]
  by_cases hother : id = other
  · subst hother
    obtain ⟨scope, hscope⟩ := exists_scope? hid
    rw [if_pos rfl, hscope]
    by_cases hname : name = name'
    · subst hname
      simp
    · simp [hname, Dict.get?_insert_of_ne _ _ (Ne.symm hname)]
  · rw [if_neg hother, if_neg fun h ↦ hother h.2]

/-- A new scope binds nothing, and the others bind what they did. -/
theorem Store.binding?_add (s : Store) (outer : Option ScopeId) (id : ScopeId) (name : String) :
    (s.add ⟨[], outer⟩).binding? id name = if id = s.size then none else s.binding? id name := by
  rw [binding?, binding?, scope?_add_eq]
  by_cases hid : id = s.size
  · rw [if_pos hid, if_pos hid]
    rfl
  · rw [if_neg hid, if_neg hid]

/-- Where a binding is seen, it stands in this scope, or the name is not bound in this scope and the
binding is seen from the scope around it. -/
theorem Store.of_lookup_bind_ne (s : Store) {id other : ScopeId} (hid : id < s.size)
    (hother : other < s.size) {name name' : String} {v : Value}
    (hne : (s.bind id name v).lookup other name' ≠ s.lookup other name') :
    (name = name' ∧ id = other) ∨ (s.binding? other name' = none ∧
      ∃ outer, (s.scope? other).map Scope.outer = some (some outer) ∧
        (s.bind id name v).lookup outer name' ≠ s.lookup outer name') := by
  by_cases hhere : name = name' ∧ id = other
  · exact .inl hhere
  · refine .inr ?_
    obtain ⟨scope, hscope⟩ := exists_scope? hother
    have hsame := (Writes.bind s id name v).sameOutward.outer other hother
    rw [hscope] at hsame
    obtain ⟨scope', hscope', houter⟩ := Option.map_eq_some_iff.1 hsame
    rw [lookup_eq, lookup_eq s, binding?_bind s hid, if_neg hhere, hscope', hscope,
      Option.bind_some, Option.bind_some, houter] at hne
    cases hbinding : s.binding? other name' with
    | some w =>
      rw [hbinding] at hne
      exact absurd rfl hne
    | none =>
      cases hout : scope.outer with
      | none =>
        rw [hout] at hne
        exact absurd rfl hne
      | some outer =>
        rw [hbinding, hout] at hne
        refine ⟨rfl, outer, by rw [hscope, Option.map_some, hout], fun heq ↦ hne ?_⟩
        dsimp only
        rw [heq]

/-! ## What the record says

The specification.  A handle stands for its number in the order of making, and the action that made
it says where it came from. -/

namespace History

/-- The actions that made the handles: the one that made handle `k` has the number `k`. -/
def makings (h : History) : List HandleAction := h.filter HandleAction.makes

/-- One of the two handles comes from the other by copies, or both come from a third one. -/
def Copies (h : History) : Nat → Nat → Prop :=
  Relation.EqvGen fun j k ↦ h.makings[k]? = some (.copy j)

/-- The scope of handle `k` was made inside that of handle `o`. -/
def Inside (h : History) (k o : Nat) : Prop :=
  ∃ j, h.Copies j k ∧ h.makings[j]? = some (.enclose o)

/-- The handles from handle `k` outward, one for each scope. -/
inductive Outward (h : History) : Nat → List Nat → Prop
  | outermost {k : Nat} (hnone : ∀ o, ¬ h.Inside k o) : Outward h k [k]
  | inside {k o : Nat} {ks : List Nat} (hinside : h.Inside k o) (hrest : Outward h o ks) :
      Outward h k (k :: ks)

/-- The action binds the name in the scope of handle `k`, through whatever handle. -/
def Sets (h : History) (k : Nat) (name : String) (action : HandleAction) : Prop :=
  ∃ j v, action = .set j name v ∧ h.Copies j k

/-- The name was never bound in the scope of handle `k`. -/
def NeverSet (h : History) (k : Nat) (name : String) : Prop :=
  ∀ action ∈ h, ¬ h.Sets k name action

/-- The value is the one that the name was bound to last in the scope of handle `k`. -/
def LastSet (h : History) (k : Nat) (name : String) (v : Value) : Prop :=
  ∃ before j after, h = before ++ .set j name v :: after ∧ h.Copies j k ∧
    ∀ action ∈ after, ¬ h.Sets k name action

/-- The value bound last in the first of the scopes in which the name was ever bound, or nothing if
it was bound in none of them. -/
inductive Nearest (h : History) (name : String) : List Nat → Option Value → Prop
  | here {k : Nat} {ks : List Nat} {v : Value} (hlast : h.LastSet k name v) :
      Nearest h name (k :: ks) (some v)
  | further {k : Nat} {ks : List Nat} {result : Option Value} (hnever : h.NeverSet k name)
      (hrest : Nearest h name ks result) : Nearest h name (k :: ks) result
  | missing : Nearest h name [] none

/-! ## Longer records -/

theorem makings_concat (h : History) (action : HandleAction) :
    makings (h ++ [action]) = h.makings ++ if action.makes then [action] else [] := by
  rw [makings, List.filter_append, List.filter_singleton, Bool.cond_eq_ite]
  rfl

theorem makings_concat_of_makes (h : History) {action : HandleAction}
    (haction : action.makes = true) : makings (h ++ [action]) = h.makings ++ [action] := by
  rw [makings_concat, if_pos haction]

/-- Binding a name makes no handle. -/
theorem makings_concat_set (h : History) (j : Nat) (name : String) (v : Value) :
    makings (h ++ [.set j name v]) = h.makings := by
  rw [makings_concat]
  exact List.append_nil _

/-- Whether handles share a scope was decided when they were made.  A longer record does not take
it back. -/
theorem Copies.concat {h : History} {j k : Nat} (hcopies : h.Copies j k) (action : HandleAction) :
    Copies (h ++ [action]) j k := by
  refine Relation.EqvGen.mono (fun i l hil ↦ ?_) _ _ hcopies
  obtain ⟨hlt, -⟩ := List.getElem?_eq_some_iff.1 hil
  rw [makings_concat, List.getElem?_append_left hlt, hil]

/-! ## The record and the scopes

The invariant: each handle stands for a scope in the way in which it was made, and each scope binds
what was written to it last. -/

/-- The value that an action binds the name to in a scope, if it does. -/
def writes? (handles : List ScopeId) (scope : ScopeId) (name : String) :
    HandleAction → Option Value
  | .set j n v => if n = name ∧ handles[j]? = some scope then some v else none
  | .new | .enclose _ | .copy _ => none

/-- The value that the name was bound to last in a scope. -/
def lastWrite (h : History) (handles : List ScopeId) (scope : ScopeId) (name : String) :
    Option Value :=
  h.reverse.findSome? (writes? handles scope name)

/-- How the handle `k` came to stand for `scope`. -/
inductive Made (handles : List ScopeId) (s : Store) (k : Nat) (scope : ScopeId) :
    HandleAction → Prop
  | new (houter : (s.scope? scope).map Scope.outer = some none) : Made handles s k scope .new
  | enclose {o : Nat} {outer : ScopeId} (ho : handles[o]? = some outer) (hlt : outer < scope)
      (houter : (s.scope? scope).map Scope.outer = some (some outer)) :
      Made handles s k scope (.enclose o)
  | copy {j : Nat} (hlt : j < k) (hj : handles[j]? = some scope) : Made handles s k scope (.copy j)

/-- The handles and the scopes of the client are those of the record. -/
structure Tracks (h : History) (c : Client) : Prop where
  live : ∀ scope ∈ c.handles, scope < c.machine.store.size
  known : ∀ j name v, .set j name v ∈ h → j < c.handles.length
  length : h.makings.length = c.handles.length
  made : ∀ k scope, c.handles[k]? = some scope →
    ∃ action, h.makings[k]? = some action ∧ Made c.handles c.machine.store k scope action
  shared : ∀ j k scope, c.handles[j]? = some scope → c.handles[k]? = some scope → h.Copies j k
  bindings : ∀ scope < c.machine.store.size, ∀ name,
    c.machine.store.binding? scope name = h.lastWrite c.handles scope name

/-- The last action counts if it writes, and else what was written before. -/
theorem lastWrite_concat (h : History) (action : HandleAction) (handles : List ScopeId)
    (scope : ScopeId) (name : String) :
    lastWrite (h ++ [action]) handles scope name =
      (writes? handles scope name action).or (h.lastWrite handles scope name) := by
  rw [lastWrite, List.reverse_append, List.findSome?_append]
  simp [lastWrite]

theorem makes_of_writes?_eq_none {action : HandleAction} (h : action.makes = true)
    (handles : List ScopeId) (scope : ScopeId) (name : String) :
    writes? handles scope name action = none := by
  cases action with
  | set j n v => cases h
  | new | enclose _ | copy _ => rfl

/-- More handles write nothing more. -/
theorem lastWrite_append {h : History} {handles : List ScopeId}
    (hknown : ∀ j name v, .set j name v ∈ h → j < handles.length) (more : List ScopeId)
    (scope : ScopeId) (name : String) :
    h.lastWrite (handles ++ more) scope name = h.lastWrite handles scope name := by
  rw [lastWrite, lastWrite, ← List.getLast?_filterMap, ← List.getLast?_filterMap]
  refine congrArg List.getLast? (List.filterMap_congr fun action haction ↦ ?_)
  cases action with
  | set j n v => rw [writes?, writes?, List.getElem?_append_left (hknown j n v haction)]
  | new | enclose _ | copy _ => rfl

/-- A scope without handles was never written to. -/
theorem lastWrite_eq_none {handles : List ScopeId} {scope : ScopeId} (hscope : scope ∉ handles)
    (h : History) (name : String) : h.lastWrite handles scope name = none := by
  refine List.findSome?_eq_none_iff.2 fun action _ ↦ ?_
  cases action with
  | set j n v =>
    refine if_neg fun hj ↦ hscope ?_
    exact List.mem_of_getElem? hj.2
  | new | enclose _ | copy _ => rfl

theorem getElem?_append_of_some {α : Type} {xs : List α} {i : Nat} {x : α} (h : xs[i]? = some x)
    (ys : List α) : (xs ++ ys)[i]? = some x := by
  obtain ⟨hlt, -⟩ := List.getElem?_eq_some_iff.1 h
  rw [List.getElem?_append_left hlt, h]

theorem getElem?_concat_eq_some {α : Type} {xs : List α} {y z : α} {i : Nat}
    (h : (xs ++ [y])[i]? = some z) : xs[i]? = some z ∨ i = xs.length ∧ y = z := by
  rcases Nat.lt_trichotomy i xs.length with hlt | rfl | hgt
  · rw [List.getElem?_append_left hlt] at h
    exact .inl h
  · rw [List.getElem?_concat_length] at h
    exact .inr ⟨rfl, Option.some.inj h⟩
  · rw [List.getElem?_eq_none (by simpa using hgt)] at h
    cases h

/-- More handles and more scopes do not matter. -/
theorem Made.later {handles : List ScopeId} {s t : Store} {k : Nat} {scope : ScopeId}
    {action : HandleAction} (h : Made handles s k scope action)
    (houter : (t.scope? scope).map Scope.outer = (s.scope? scope).map Scope.outer)
    (more : List ScopeId) : Made (handles ++ more) t k scope action := by
  cases h with
  | new hnone => exact .new (houter.trans hnone)
  | enclose ho hlt hsome =>
    exact .enclose (getElem?_append_of_some ho more) hlt (houter.trans hsome)
  | copy hlt hj => exact .copy hlt (getElem?_append_of_some hj more)

namespace Tracks

variable {h : History} {c c' : Client} {action : HandleAction}

theorem start : Tracks [] Client.start where
  live := by simp [Client.start]
  known := by simp
  length := rfl
  made := by simp [Client.start]
  shared := by simp [Client.start]
  bindings scope hscope := absurd hscope (Nat.not_lt_zero scope)

/-- An action that makes a handle to `scope`, which is an old scope or a new one. -/
theorem addHandle (hc : Tracks h c) {scope : ScopeId} {m : Machine}
    (haction : action.makes = true) (hscope : scope < m.store.size)
    (hgrows : c.machine.store.SameOutward m.store)
    (hmade : Made c.handles m.store c.handles.length scope action)
    (hshared : ∀ k, c.handles[k]? = some scope → Copies (h ++ [action]) k c.handles.length)
    (hbindings : ∀ s < m.store.size, ∀ name,
      m.store.binding? s name = h.lastWrite c.handles s name) :
    Tracks (h ++ [action]) { c with machine := m, handles := c.handles ++ [scope] } where
  live := by
    refine List.forall_mem_append.2 ⟨fun s hs ↦ ?_, List.forall_mem_singleton.2 hscope⟩
    exact Nat.lt_of_lt_of_le (hc.live s hs) hgrows.grows
  known j name v hmem := by
    rw [List.length_append]
    -- an action that makes a handle binds nothing
    rcases List.mem_append.1 hmem with hmem | hmem
    · exact Nat.lt_add_right _ (hc.known j name v hmem)
    · rw [← List.mem_singleton.1 hmem] at haction
      cases haction
  length := by
    rw [makings_concat_of_makes h haction, List.length_append, List.length_append, hc.length]
    rfl
  made k s hk := by
    rw [makings_concat_of_makes h haction]
    rcases getElem?_concat_eq_some hk with hk | ⟨rfl, rfl⟩
    · obtain ⟨b, hb, hold⟩ := hc.made k s hk
      have houter := hgrows.outer s (hc.live s (List.mem_of_getElem? hk))
      exact ⟨b, getElem?_append_of_some hb _, hold.later houter _⟩
    · exact ⟨action, by rw [← hc.length, List.getElem?_concat_length], hmade.later rfl _⟩
  shared j k s hj hk := by
    rcases getElem?_concat_eq_some hj with hj | ⟨rfl, rfl⟩
    · rcases getElem?_concat_eq_some hk with hk | ⟨rfl, rfl⟩
      · exact (hc.shared j k s hj hk).concat action
      · exact hshared j hj
    · rcases getElem?_concat_eq_some hk with hk | ⟨rfl, -⟩
      · exact (hshared k hk).symm
      · exact .refl _
  bindings s hs name := by
    rw [lastWrite_concat, makes_of_writes?_eq_none haction, Option.none_or,
      hbindings s hs name]
    exact (lastWrite_append hc.known _ s name).symm

/-- An action that makes a scope and a handle to it. -/
theorem newScope (hc : Tracks h c) {outer : Option ScopeId} (haction : action.makes = true)
    (hmade : Made c.handles (c.machine.newScope outer).2.store c.handles.length
      c.machine.store.size action) : Tracks (h ++ [action]) (c.newScope outer) := by
  have hsize : (c.machine.newScope outer).2.store.size = c.machine.store.size + 1 :=
    Store.size_add ..
  have hfresh : c.machine.store.size ∉ c.handles :=
    fun hmem ↦ absurd (hc.live _ hmem) (Nat.lt_irrefl _)
  refine hc.addHandle haction (hsize ▸ Nat.lt_succ_self _) (Store.sameOutward_add ..) hmade
    (fun k hk ↦ absurd (List.mem_of_getElem? hk) hfresh)
    fun s hs name ↦ (Store.binding?_add ..).trans ?_
  by_cases hnew : s = c.machine.store.size
  · rw [if_pos hnew, hnew, lastWrite_eq_none hfresh]
  · rw [if_neg hnew]
    have hold : s < c.machine.store.size + 1 := hsize ▸ hs
    exact hc.bindings s (by omega) name

/-- An action that copies a handle. -/
theorem copy (hc : Tracks h c) {k : Nat} {scope : ScopeId} (hk : c.handles[k]? = some scope) :
    Tracks (h ++ [.copy k]) { c with handles := c.handles ++ [scope] } := by
  obtain ⟨hlt, -⟩ := List.getElem?_eq_some_iff.1 hk
  refine hc.addHandle rfl (hc.live scope (List.mem_of_getElem? hk)) (.refl _) (.copy hlt hk)
    (fun j hj ↦ ?_) hc.bindings
  have hnew : (makings (h ++ [.copy k]))[c.handles.length]? = some (.copy k) := by
    rw [makings_concat_of_makes h rfl, ← hc.length, List.getElem?_concat_length]
  exact ((hc.shared j k scope hj hk).concat _).trans _ _ _ (.rel _ _ hnew)

/-- An action that binds a name. -/
theorem set (hc : Tracks h c) {k : Nat} {scope : ScopeId} (hk : c.handles[k]? = some scope)
    (name : String) (v : Value) :
    Tracks (h ++ [.set k name v]) { c with machine := c.machine.set scope name v } where
  live s hs := (Store.size_bind ..).symm ▸ hc.live s hs
  known j n w hmem := by
    rcases List.mem_append.1 hmem with hmem | hmem
    · exact hc.known j n w hmem
    · cases List.mem_singleton.1 hmem
      exact (List.getElem?_eq_some_iff.1 hk).1
  length := by
    rw [makings_concat_set, hc.length]
  made j s hj := by
    rw [makings_concat_set]
    obtain ⟨b, hb, hold⟩ := hc.made j s hj
    have houter := (Store.Writes.bind c.machine.store scope name v).sameOutward.outer s
      (hc.live s (List.mem_of_getElem? hj))
    have hlater := hold.later houter []
    rw [List.append_nil] at hlater
    exact ⟨b, hb, hlater⟩
  shared i j s hi hj := (hc.shared i j s hi hj).concat _
  bindings s hs name' := by
    rw [lastWrite_concat, ← hc.bindings s (lt_of_lt_of_eq hs (Store.size_bind ..)) name']
    refine (Store.binding?_bind _ (hc.live scope (List.mem_of_getElem? hk)) s name name' v).trans ?_
    simp only [writes?, hk, Option.some_inj]
    split <;> rfl

/-- **One action keeps the record right.** -/
theorem operate (hc : Tracks h c) (hoperate : c.operate action = some c') :
    Tracks (h ++ [action]) c' := by
  cases action with
  | new =>
    cases hoperate
    refine hc.newScope rfl (.new ?_)
    exact congrArg (Option.map Scope.outer) (Store.scope?_add_size ..)
  | enclose k =>
    obtain ⟨scope, hscope, hnew⟩ := Option.bind_eq_some_iff.1 hoperate
    cases hnew
    refine hc.newScope rfl (.enclose hscope (hc.live scope (List.mem_of_getElem? hscope)) ?_)
    exact congrArg (Option.map Scope.outer) (Store.scope?_add_size ..)
  | copy k =>
    obtain ⟨scope, hscope, hcopy⟩ := Option.bind_eq_some_iff.1 hoperate
    cases hcopy
    exact hc.copy hscope
  | set k name v =>
    obtain ⟨scope, hscope, hset⟩ := Option.bind_eq_some_iff.1 hoperate
    cases hset
    exact hc.set hscope name v

/-- Any number of actions keeps the record right. -/
theorem operates (hc : Tracks h c) {actions : History}
    (hoperates : Client.operates actions c = some c') : Tracks (h ++ actions) c' := by
  induction actions generalizing h c with
  | nil =>
    cases hoperates
    rwa [List.append_nil]
  | cons action rest ih =>
    obtain ⟨c₁, hoperate, hrest⟩ := Option.bind_eq_some_iff.1 hoperates
    have hlast := ih (hc.operate hoperate) hrest
    rwa [List.append_assoc] at hlast

/-! ## What the record tells -/

variable {j k o : Nat} {scope : ScopeId} {name : String}

theorem getElem?_eq_of_copies (hc : Tracks h c) (hcopies : h.Copies j k) :
    c.handles[j]? = c.handles[k]? := by
  induction hcopies with
  | rel j k hk =>
    obtain ⟨hlt, -⟩ := List.getElem?_eq_some_iff.1 hk
    rw [hc.length] at hlt
    have hthere := List.getElem?_eq_getElem hlt
    obtain ⟨action, haction, hmade⟩ := hc.made k _ hthere
    obtain rfl : HandleAction.copy j = action := Option.some.inj (hk.symm.trans haction)
    cases hmade with
    | copy _ hj => exact hj.trans hthere.symm
  | refl j => rfl
  | symm j k _ ih => exact ih.symm
  | trans j k l _ _ ih₁ ih₂ => exact ih₁.trans ih₂

/-- The handles to a scope are the copies of one of them. -/
theorem copies_iff (hc : Tracks h c) (hk : c.handles[k]? = some scope) :
    h.Copies j k ↔ c.handles[j]? = some scope :=
  ⟨fun hcopies ↦ (hc.getElem?_eq_of_copies hcopies).trans hk,
    fun hj ↦ hc.shared j k scope hj hk⟩

/-- Handles stand for one scope exactly if they are copies. -/
theorem sameScope_iff (hc : Tracks h c) (hj : j < c.handles.length) (k : Nat) :
    c.sameScope j k = true ↔ h.Copies j k := by
  have hscope := List.getElem?_eq_getElem hj
  rw [Client.sameScope, hscope]
  cases hk : c.handles[k]? with
  | none =>
    refine iff_of_false nofun fun hcopies ↦ ?_
    rw [hc.getElem?_eq_of_copies hcopies, hk] at hscope
    cases hscope
  | some t =>
    rw [hc.copies_iff hk, hscope, Option.some_inj]
    exact beq_iff_eq

theorem writes?_eq_some (hc : Tracks h c) (hk : c.handles[k]? = some scope) {v : Value} :
    writes? c.handles scope name action = some v ↔
      ∃ j, action = .set j name v ∧ h.Copies j k := by
  cases action with
  | set j n w =>
    simp only [writes?, Option.ite_none_right_eq_some, HandleAction.set.injEq, Option.some_inj]
    constructor
    · rintro ⟨⟨rfl, hj⟩, rfl⟩
      exact ⟨j, ⟨rfl, rfl, rfl⟩, (hc.copies_iff hk).2 hj⟩
    · rintro ⟨_, ⟨rfl, rfl, rfl⟩, hcopies⟩
      exact ⟨⟨rfl, (hc.copies_iff hk).1 hcopies⟩, rfl⟩
  | new | enclose _ | copy _ => simp [writes?]

theorem writes?_eq_none (hc : Tracks h c) (hk : c.handles[k]? = some scope) :
    writes? c.handles scope name action = none ↔ ¬ h.Sets k name action := by
  rw [Option.eq_none_iff_forall_ne_some, Sets, exists_comm, not_exists]
  exact forall_congr' fun v ↦ not_congr (hc.writes?_eq_some hk)

/-- A scope binds what was set last through any of its handles. -/
theorem binding?_eq_some (hc : Tracks h c) (hk : c.handles[k]? = some scope) {v : Value} :
    c.machine.store.binding? scope name = some v ↔ h.LastSet k name v := by
  rw [hc.bindings scope (hc.live scope (List.mem_of_getElem? hk)), lastWrite,
    List.findSome?_eq_some_iff]
  constructor
  · rintro ⟨after, action, before, hh, haction, hafter⟩
    obtain ⟨j, rfl, hcopies⟩ := (hc.writes?_eq_some hk).1 haction
    refine ⟨before.reverse, j, after.reverse, ?_, hcopies, fun b hb ↦ ?_⟩
    · rw [← List.reverse_reverse h, hh]
      simp
    · exact (hc.writes?_eq_none hk).1 (hafter b (List.mem_reverse.1 hb))
  · rintro ⟨before, j, after, hh, hcopies, hafter⟩
    refine ⟨after.reverse, .set j name v, before.reverse, ?_,
      (hc.writes?_eq_some hk).2 ⟨j, rfl, hcopies⟩, fun b hb ↦ ?_⟩
    · rw [hh]
      simp
    · exact (hc.writes?_eq_none hk).2 (hafter b (List.mem_reverse.1 hb))

theorem binding?_eq_none (hc : Tracks h c) (hk : c.handles[k]? = some scope) :
    c.machine.store.binding? scope name = none ↔ h.NeverSet k name := by
  rw [hc.bindings scope (hc.live scope (List.mem_of_getElem? hk)), lastWrite,
    List.findSome?_eq_none_iff]
  refine forall_congr' fun action ↦ ?_
  rw [List.mem_reverse, hc.writes?_eq_none hk]

/-- The scope of a handle stands inside that of the handle which it was made inside of. -/
theorem outer_of_inside (hc : Tracks h c) (hk : c.handles[k]? = some scope)
    (hinside : h.Inside k o) :
    ∃ outer, c.handles[o]? = some outer ∧ outer < scope ∧
      (c.machine.store.scope? scope).map Scope.outer = some (some outer) := by
  obtain ⟨j, hcopies, hj⟩ := hinside
  obtain ⟨action, haction, hmade⟩ := hc.made j scope ((hc.copies_iff hk).1 hcopies)
  obtain rfl : HandleAction.enclose o = action := Option.some.inj (hj.symm.trans haction)
  cases hmade with
  | enclose ho hlt houter => exact ⟨_, ho, hlt, houter⟩

/-- The scope of a handle that was made inside no other one stands inside no other one. -/
theorem outer_of_not_inside (hc : Tracks h c) (hk : c.handles[k]? = some scope)
    (hnone : ∀ o, ¬ h.Inside k o) :
    (c.machine.store.scope? scope).map Scope.outer = some none := by
  -- The handle is a copy of a copy, and so on, of the one that its scope was made with.
  induction k using Nat.strongRecOn with
  | ind k ih =>
    obtain ⟨action, haction, hmade⟩ := hc.made k scope hk
    cases hmade with
    | new houter => exact houter
    | enclose ho hlt houter => exact absurd ⟨k, .refl _, haction⟩ (hnone _)
    | copy hlt hj =>
      refine ih _ hlt hj fun o ⟨i, hcopies, hi⟩ ↦ hnone o ⟨i, ?_, hi⟩
      exact hcopies.trans _ _ _ (.rel _ _ haction)

/-- From every handle there are finitely many outward. -/
theorem exists_outward (hc : Tracks h c) (hk : c.handles[k]? = some scope) :
    ∃ ks, h.Outward k ks := by
  induction scope using Nat.strongRecOn generalizing k with
  | ind scope ih =>
    by_cases hinside : ∃ o, h.Inside k o
    · obtain ⟨o, hinside⟩ := hinside
      obtain ⟨outer, ho, hlt, -⟩ := hc.outer_of_inside hk hinside
      obtain ⟨ks, hks⟩ := ih outer hlt ho
      exact ⟨k :: ks, .inside hinside hks⟩
    · exact ⟨[k], .outermost (not_exists.1 hinside)⟩

/-- What is nearest is decided in the first scope, if the name was ever bound there. -/
theorem nearest_cons (hc : Tracks h c) (hk : c.handles[k]? = some scope) {ks : List Nat}
    {result : Option Value} :
    h.Nearest name (k :: ks) result ↔
      match c.machine.store.binding? scope name with
      | some v => result = some v
      | none => h.Nearest name ks result := by
  cases hbinding : c.machine.store.binding? scope name with
  | some v =>
    dsimp only
    constructor
    · rintro (hlast | ⟨hnever, -⟩)
      · rw [← (hc.binding?_eq_some hk).2 hlast, hbinding]
      · rw [(hc.binding?_eq_none hk).2 hnever] at hbinding
        cases hbinding
    · rintro rfl
      exact .here ((hc.binding?_eq_some hk).1 hbinding)
  | none =>
    dsimp only
    constructor
    · rintro (hlast | ⟨-, hrest⟩)
      · rw [(hc.binding?_eq_some hk).2 hlast] at hbinding
        cases hbinding
      · exact hrest
    · exact .further ((hc.binding?_eq_none hk).1 hbinding)

/-- **A name is looked up in the nearest scope in which it was ever bound.** -/
theorem nearest_iff (hc : Tracks h c) {ks : List Nat} (houtward : h.Outward k ks)
    (hk : c.handles[k]? = some scope) {result : Option Value} :
    h.Nearest name ks result ↔ c.machine.store.lookup scope name = result := by
  induction houtward generalizing scope with
  | outermost hnone =>
    obtain ⟨content, hcontent, houter⟩ := Option.map_eq_some_iff.1 (hc.outer_of_not_inside hk hnone)
    rw [hc.nearest_cons hk, Store.lookup_eq, hcontent, Option.bind_some, houter]
    cases c.machine.store.binding? scope name with
    | some v => exact eq_comm
    | none =>
      constructor
      · rintro ⟨⟩
        rfl
      · rintro rfl
        exact .missing
  | inside hinside _ ih =>
    obtain ⟨outer, ho, hlt, houter⟩ := hc.outer_of_inside hk hinside
    obtain ⟨content, hcontent, houter⟩ := Option.map_eq_some_iff.1 houter
    rw [hc.nearest_cons hk, Store.lookup_eq, hcontent, Option.bind_some, houter]
    cases c.machine.store.binding? scope name with
    | some v => exact eq_comm
    | none =>
      dsimp only
      rw [if_pos hlt]
      exact ih ho

/-- **A binding is seen only from handles that have its scope on their way outward**, and nothing
nearer with that name. -/
theorem seen_of_lookup_ne (hc : Tracks h c) {ks : List Nat} (houtward : h.Outward k ks)
    (hk : c.handles[k]? = some scope) {s : ScopeId} (hj : c.handles[j]? = some s) {v : Value}
    {name' : String}
    (hne : (c.machine.store.bind s name v).lookup scope name' ≠
      c.machine.store.lookup scope name') :
    name' = name ∧ ∃ nearer g further, ks = nearer ++ g :: further ∧ h.Copies g j ∧
      ∀ i ∈ nearer, h.NeverSet i name' := by
  have hs := hc.live s (List.mem_of_getElem? hj)
  induction houtward generalizing scope with
  | @outermost k hnone =>
    rcases Store.of_lookup_bind_ne _ hs (hc.live scope (List.mem_of_getElem? hk)) hne with
      ⟨rfl, rfl⟩ | ⟨-, outer, houter, -⟩
    · exact ⟨rfl, [], k, [], rfl, hc.shared k j s hk hj, by simp⟩
    · rw [hc.outer_of_not_inside hk hnone] at houter
      cases houter
  | @inside k o ks hinside _ ih =>
    rcases Store.of_lookup_bind_ne _ hs (hc.live scope (List.mem_of_getElem? hk)) hne with
      ⟨rfl, rfl⟩ | ⟨hnone, outer, houter, hne⟩
    · exact ⟨rfl, [], k, ks, rfl, hc.shared k j s hk hj, by simp⟩
    · obtain ⟨outer', ho, -, houter'⟩ := hc.outer_of_inside hk hinside
      obtain rfl : outer' = outer := by simpa using houter'.symm.trans houter
      obtain ⟨rfl, nearer, g, further, rfl, hcopies, hnever⟩ := ih ho hne
      refine ⟨rfl, k :: nearer, g, further, rfl, hcopies, List.forall_mem_cons.2 ⟨?_, hnever⟩⟩
      exact (hc.binding?_eq_none hk).1 hnone

end Tracks

/-! ## Every record -/

/-- **What handles see**, after any actions that were done with handles that were there.

* There is one handle for each action that makes one, and two handles share a scope just when one
  comes from the other by copies, or both come from a third one.
* Finitely many handles are seen from a handle outward.  The value of a name is the one bound last,
  through any copy, in the nearest of their scopes in which the name was ever bound, and there is
  none if it was bound in none of them.
* When one more name is bound, a handle sees a difference for this name only, and only if the scope
  in which it is bound is one of those seen outward and the name was bound in none that is
  nearer. -/
theorem handles_see {h : History} (hpossible : h.Possible 0) :
    ∃ c, Client.operates h Client.start = some c ∧ c.handles.length = h.makings.length ∧
      (∀ j < c.handles.length, ∀ k, c.sameScope j k = true ↔ h.Copies j k) ∧
      ∀ k < c.handles.length, (∃ ks, h.Outward k ks) ∧ ∀ ks, h.Outward k ks →
        (∀ name result, c.get? k name = result ↔ h.Nearest name ks result) ∧
        ∀ j name v c', c.operate (.set j name v) = some c' →
          ∀ name', c'.get? k name' ≠ c.get? k name' →
            name' = name ∧ ∃ nearer g further, ks = nearer ++ g :: further ∧ h.Copies g j ∧
              ∀ i ∈ nearer, h.NeverSet i name' := by
  obtain ⟨c, hoperates⟩ := Client.exists_operates (c := Client.start) hpossible
  have hc : Tracks h c := Tracks.start.operates hoperates
  refine ⟨c, hoperates, hc.length.symm, fun j hj k ↦ hc.sameScope_iff hj k, fun k hlt ↦ ?_⟩
  have hk := List.getElem?_eq_getElem hlt
  have hget (name : String) : c.get? k name = c.machine.store.lookup c.handles[k] name := by
    rw [Client.get?, hk]
    rfl
  refine ⟨hc.exists_outward hk, fun ks houtward ↦ ⟨fun name result ↦ ?_, ?_⟩⟩
  · rw [hget, hc.nearest_iff houtward hk]
  · intro j name v c' hset name' hne
    obtain ⟨s, hj, hset⟩ := Option.bind_eq_some_iff.1 hset
    cases hset
    rw [hget, Client.get?, hk] at hne
    exact hc.seen_of_lookup_ne houtward hk hj hne

/-- Handle 3 stands inside the scope that the handles 1 and 2 share.  There the name was bound
through handle 2, and a later binding in the scope around it is not seen. -/
theorem handles_see_shadowed :
    let h : History := [.new, .enclose 0, .copy 1, .enclose 1, .set 0 "a" (.int 1),
      .set 2 "a" (.int 2), .set 0 "a" (.int 3), .set 0 "b" (.int 4)]
    ∃ c, Client.operates h Client.start = some c ∧ c.handles.length = 4 ∧ h.Copies 1 2 ∧
      ¬ h.Copies 0 1 ∧ ∃ ks, h.Outward 3 ks ∧ h.Nearest "a" ks (some (.int 2)) ∧
        h.Nearest "b" ks (some (.int 4)) ∧ h.Nearest "c" ks none := by
  intro h
  have hpossible : h.Possible 0 := by simp [h, Possible, HandleAction.handle?, HandleAction.makes]
  obtain ⟨c, hoperates, hlength, hcopies, hsees⟩ := handles_see hpossible
  have hseen : (Client.operates h Client.start).map (fun c ↦ (c.sameScope 1 2, c.sameScope 0 1,
      c.get? 3 "a", c.get? 3 "b", c.get? 3 "c")) =
      some (true, false, some (.int 2), some (.int 4), none) := by cbv
  rw [hoperates, Option.map_some, Option.some_inj] at hseen
  simp only [Prod.mk.injEq] at hseen
  obtain ⟨hshared, hother, ha, hb, hmissing⟩ := hseen
  have hfour : c.handles.length = 4 := hlength
  obtain ⟨⟨ks, houtward⟩, hnearest⟩ := hsees 3 (by omega)
  obtain ⟨hget, -⟩ := hnearest ks houtward
  refine ⟨c, hoperates, hfour, (hcopies 1 (by omega) 2).1 hshared, fun h01 ↦ ?_, ks, houtward,
    (hget _ _).1 ha, (hget _ _).1 hb, (hget _ _).1 hmissing⟩
  rw [(hcopies 0 (by omega) 1).2 h01] at hother
  cases hother

end History

end MonkeyLang
