import MonkeyLang.Proofs.Session.Client

/-!
# Calling a function again

A call runs in a scope of its own.  It changes no scope that existed before, and nobody else sees
the scopes that it made unless it gives them away in its result.  So a function has no memory:
called again with the same arguments, whatever was called in between, it does the same
(`apply_again`).

The second call starts from a larger store than the first one, and makes scopes of other names.
The scopes of the first store are matched with themselves.  This takes a store that is well formed,
so that nothing in it refers to a scope that is still to be made.

## What is in between

Other calls, of any functions with any arguments, as long as they end.  They may print, and they
may fail.  What they may not do is bind names in a scope that is there, and they cannot, since that
takes code which runs in that scope.  Running another text in between is excluded for this reason:
a `let` in it could bind a name that the function reads.

## The same

The results look alike to a host.  They need not be equal: a call that makes a function makes it in
a new scope, and the functions of two calls are different.  The arguments are the same values both
times, functions among them, and the function that is called is one of the language; builtin
functions do not even depend on the store.
-/

set_option autoImplicit false

namespace MonkeyLang

/-! ## Stores with more scopes -/

namespace Store

theorem Extends.trans {s t u : Store} (hst : s.Extends t) (htu : t.Extends u) : s.Extends u where
  grows := Nat.le_trans hst.grows htu.grows
  same id hid :=
    (htu.same id (Nat.lt_of_lt_of_le hid hst.grows)).trans (hst.same id hid)

/-- The scopes of `s`, each matched with itself.  Scopes that are not in `s` are not matched, so
nothing is asked of them. -/
def itself (s : Store) : ScopeId → ScopeId → Prop := fun i j ↦ j = i ∧ i < s.size

/-- A well-formed store is alike to one that has more scopes. -/
theorem WellFormed.alike_of_extends {s t : Store} (h : s.WellFormed) (hext : s.Extends t) :
    s.Alike s.itself t where
  order := by
    rintro i _ i' _ ⟨rfl, -⟩ ⟨rfl, -⟩
    rfl
  level := by
    rintro i _ ⟨rfl, hi⟩
    exact .inl ⟨hi, Nat.lt_of_lt_of_le hi hext.grows⟩
  scopes := by
    rintro _ i ⟨rfl, hi⟩
    rw [hext.same i hi]
    cases hscope : s.scope? i with
    | none => exact .none
    | some scope =>
      refine .some ⟨List.forall₂_same.2 fun p hp ↦ ⟨rfl, p.2.alike_self fun f hf ↦ ?_⟩, ?_⟩
      · exact ⟨rfl, h.captured f ⟨i, scope, hscope, p, hp, hf⟩⟩
      · cases houter : scope.outer with
        | none => exact .none
        | some outer => exact .some ⟨rfl, Nat.lt_trans (h.older hscope houter) hi⟩

end Store

/-! ## Calls -/

/-- From the machine `m` on, calls that end, one after the other, lead to `m'`.  Calls are made by
a host here, not by a program, so they come one after the other and not inside of each other. -/
inductive Machine.Calls (m : Machine) : Machine → Prop
  | none : Calls m m
  | call {m₁ m₂ : Machine} {depth : Nat} {f : Value} {arguments : List Value} (h : Calls m m₁)
      (hcall : (Eval.apply depth f arguments m₁).state? = some m₂) : Calls m m₂

/-- Calls add scopes and leave those from before as they are. -/
theorem Machine.Calls.extends {m m' : Machine} (h : m.Calls m') : m.store.Extends m'.store := by
  induction h with
  | none => exact .refl _
  | call _ hcall ih => exact ih.trans ((Eval.fresh_apply _ _ _ _).of_state? hcall)

namespace Eval

/-- A `return` does not leave the function that it stands in.  It becomes the value of the call, so
the only signals that leave a call are errors. -/
theorem boundary_ne_returned (run : Eval Value) (m : Machine) (v : Value) (n : Machine) :
    boundary run m ≠ .stop (.returned v) n := by
  rw [boundary]
  split
  · simp
  · rename_i hne
    exact hne v n

/-- A call of a function does not end with a `return`. -/
theorem apply_function_ne_returned (depth : Nat) (f : Closure) (arguments : List Value)
    (m : Machine) (v : Value) (n : Machine) :
    apply depth (.function f) arguments m ≠ .stop (.returned v) n := by
  cases depth with
  | zero => simp [apply]
  | succ depth =>
    rw [apply]
    split
    · exact boundary_ne_returned _ _ v n
    · simp [Eval.fail]

/-- The same call goes the same way in a store that has more scopes.  New scopes get other numbers
there, and this is all the difference. -/
theorem looksLike_apply (depth : Nat) {f : Closure} {arguments : List Value} {m m' : Machine}
    (hm : m.store.WellFormed) (hf : f.scope < m.store.size)
    (harguments : ∀ v ∈ arguments, v.LivesIn m.store) (hext : m.store.Extends m'.store) :
    (apply depth (.function f) arguments m).LooksLike
      (fun e e' ↦ ∃ error, e = .failed error ∧ e' = .failed error)
      (apply depth (.function f) arguments m') := by
  have hfunction : (Value.function f).Alike m.store.itself (.function f) :=
    (Value.function f).alike_self (List.forall_mem_singleton.2 ⟨rfl, hf⟩)
  have hall : List.Forall₂ (Value.Alike m.store.itself) arguments arguments :=
    List.forall₂_same.2 fun v hv ↦ v.alike_self fun g hg ↦ ⟨rfl, harguments v hv g hg⟩
  have htogether := mirrors_apply depth hfunction hall m m' (hm.alike_of_extends hext)
  obtain ⟨v, n, w, n', ho, ho', ρ, -, hvw⟩ | ⟨e, n, e', n', ho, ho', ρ, -, hsignal⟩ | ⟨ho, ho'⟩ :=
    htogether.inv
  · rw [ho, ho']
    exact hvw.looksLike
  · cases e with
    | returned v => exact absurd ho (apply_function_ne_returned depth f arguments m v n)
    | failed error =>
      cases e' with
      | returned w => exact hsignal.elim
      | failed error' =>
        rw [ho, ho']
        exact ⟨error, rfl, congrArg Signal.failed hsignal⟩
  · rw [ho, ho']
    exact trivial

end Eval

/-- **Calls can be repeated.**  In a well-formed store, as all those are that clients come to
(`Client.Reaches.sound`), a function of the language is called with arguments, and the call ends
with a value or an error.  After any number of further calls the same call ends again, with a value
that looks alike or with the same error. -/
theorem apply_again {m : Machine} (hm : m.store.WellFormed) {f : Closure} {arguments : List Value}
    (hf : f.scope < m.store.size) (harguments : ∀ v ∈ arguments, v.LivesIn m.store)
    {o : Outcome Signal Machine Value} {m₁ : Machine}
    (ho : Settles (fun depth ↦ Eval.apply depth (.function f) arguments) m o)
    (hm₁ : o.state? = some m₁) {m₂ : Machine} (hcalls : m₁.Calls m₂) :
    ∃ o' m₃, Settles (fun depth ↦ Eval.apply depth (.function f) arguments) m₂ o' ∧
      o'.state? = some m₃ ∧
      o.LooksLike (fun e e' ↦ ∃ error, e = .failed error ∧ e' = .failed error) o' := by
  have hfirst : m.store.Extends m₁.store := by
    obtain ⟨least, hleast⟩ := ho
    have hend : (Eval.apply least (.function f) arguments m).state? = some m₁ := by
      rw [← hm₁, ← hleast least (Nat.le_refl _)]
    exact (Eval.fresh_apply least (.function f) arguments m).of_state? hend
  have hext : m.store.Extends m₂.store := hfirst.trans hcalls.extends
  obtain ⟨o', ho'⟩ := Settles.exists_of_grow
    (fun depth ↦ Eval.below_apply depth (.function f) arguments) m₂
  have hlike : o.LooksLike (fun e e' ↦ ∃ error, e = .failed error ∧ e' = .failed error) o' :=
    ho.together ho' fun depth ↦ Eval.looksLike_apply depth hm hf harguments hext
  obtain ⟨v, n, w, n', rfl, rfl, -⟩ | ⟨e, n, e', n', rfl, rfl, -⟩ | ⟨rfl, rfl⟩ :=
    Outcome.Together.inv hlike
  · exact ⟨_, n', ho', rfl, hlike⟩
  · exact ⟨_, n', ho', rfl, hlike⟩
  · cases hm₁

/-- The function `fn(x) { fn() { x } }`, made in the first scope.  Each call makes a function. -/
def constantMaker : Closure where
  parameters := ["x"]
  body := ⟨⟨.symbol .leftBrace, ⟨1, 6⟩⟩,
    [.exprStmt ⟨.keyword .kwFunction, ⟨1, 7⟩⟩ (.function ⟨.keyword .kwFunction, ⟨1, 7⟩⟩ []
      ⟨⟨.symbol .leftBrace, ⟨1, 11⟩⟩,
        [.exprStmt ⟨.ident "x", ⟨1, 12⟩⟩ (.ident ⟨⟨.ident "x", ⟨1, 12⟩⟩, "x"⟩)]⟩)]⟩
  origin := ⟨0, ⟨1, 1⟩⟩
  scope := 0

/-- Called with another argument in between, it makes a function that looks like the first one, from
a scope of another name. -/
theorem apply_again_constantMaker :
    ∃ v m₁ m₂ o' m₃,
      Settles (fun depth ↦ Eval.apply depth (.function constantMaker) [.int 1])
          (Machine.initial.newScope none).2 (.done v m₁) ∧
        v.closures.map Closure.scope = [1] ∧
        (Eval.apply 5 (.function constantMaker) [.int 2] m₁).state? = some m₂ ∧
        Settles (fun depth ↦ Eval.apply depth (.function constantMaker) [.int 1]) m₂ o' ∧
        o'.state? = some m₃ ∧
        (Outcome.done v m₁).LooksLike (fun e e' ↦ ∃ error, e = .failed error ∧ e' = .failed error)
          o' := by
  have hreaches : Client.start.Reaches [.newScope] (Client.start.newScope none) := ⟨0, rfl⟩
  obtain ⟨v, m₁, hfirst, hscope⟩ : ∃ v m₁, Eval.apply 5 (.function constantMaker) [.int 1]
      (Machine.initial.newScope none).2 = .done v m₁ ∧ v.closures.map Closure.scope = [1] :=
    ⟨_, _, rfl, rfl⟩
  have hsettles := Settles.of_ne_exhausted
    (fun depth ↦ Eval.below_apply depth (.function constantMaker) [.int 1])
    (hfirst.trans_ne (by simp))
  rw [hfirst] at hsettles
  obtain ⟨m₂, hsecond⟩ : ∃ m₂,
      (Eval.apply 5 (.function constantMaker) [.int 2] m₁).state? = some m₂ := ⟨_, rfl⟩
  obtain ⟨o', m₃, ho', hm₃, hlike⟩ := apply_again hreaches.sound.store.wellFormed
    (by decide) (by simp [Value.LivesIn, Value.closures]) hsettles rfl (.call .none hsecond)
  exact ⟨v, m₁, m₂, o', m₃, hsettles, hscope, hsecond, ho', hm₃, hlike⟩

end MonkeyLang
