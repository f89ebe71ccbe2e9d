/-!
# Actions with three ways to end

Reading a program and running one are both done by actions on a state that

* finish with a value (`Outcome.done`),
* stop early for a reason (`Outcome.stop`), or
* use up the bound on their depth of recursion before they end (`Outcome.exhausted`).

The state survives an early stop: what an action did before it stopped is not undone.  That is why
the state stands inside of the outcome and is not put around it by a monad transformer, whose order
would have to be remembered in every proof.  An early stop of a reader keeps the errors that it has
recorded, and an early stop of an evaluation keeps the bindings that were made and the text that
was printed.

The third ending belongs to the bound alone.  It says nothing about the program at hand, and a
larger bound may turn it into one of the other two.  It is kept apart from the early stops, so that
no error message can be taken for a lack of depth or the other way round, and no theorem has to say
which of the errors are real.

`Action` is a lawful monad, and the readers and evaluators are written with `do`.  The lemmas named
`_apply` take a step of such a block apart, with the state in hand.
-/

set_option autoImplicit false

namespace MonkeyLang

/-- How an action ended, with the state that it left.  If the bound on the depth was too small
there is no state, for nothing is known of what would have happened. -/
inductive Outcome (ε σ α : Type) where
  | done (value : α) (state : σ)
  | stop (reason : ε) (state : σ)
  | exhausted

/-- The same end, with another word for the reason of an early stop. -/
def Outcome.mapReason {ε ε' σ α : Type} (f : ε → ε') : Outcome ε σ α → Outcome ε' σ α
  | .done value s => .done value s
  | .stop reason s => .stop (f reason) s
  | .exhausted => .exhausted

/-- An action on a state `σ` that gives a value `α` or stops early for a reason `ε`. -/
def Action (ε σ α : Type) : Type := σ → Outcome ε σ α

namespace Action

variable {ε σ α β : Type}

/-- Do nothing and give `value`. -/
@[inline]
def give (value : α) : Action ε σ α := fun s ↦ .done value s

/-- Do `first`, then what `next` makes of its value, unless `first` does not finish. -/
@[inline]
def andThen (first : Action ε σ α) (next : α → Action ε σ β) : Action ε σ β := fun s ↦
  match first s with
  | .done value s => next value s
  | .stop reason s => .stop reason s
  | .exhausted => .exhausted

instance : Monad (Action ε σ) where
  pure := give
  bind := andThen

theorem andThen_give (first : Action ε σ α) : andThen first give = first := by
  funext s
  simp only [andThen, give]
  cases first s <;> rfl

theorem andThen_andThen {γ : Type} (first : Action ε σ α) (next : α → Action ε σ β)
    (last : β → Action ε σ γ) :
    andThen (andThen first next) last = andThen first fun value ↦ andThen (next value) last := by
  funext s
  simp only [andThen]
  cases first s <;> rfl

instance : LawfulMonad (Action ε σ) :=
  LawfulMonad.mk' (Action ε σ) andThen_give (fun _ _ ↦ rfl) andThen_andThen

/-- Stop early. -/
@[inline]
def halt (reason : ε) : Action ε σ α := fun s ↦ .stop reason s

/-- Give up for want of depth. -/
@[inline]
def exhaust : Action ε σ α := fun _ ↦ .exhausted

/-- Read off the state. -/
@[inline]
def look (read : σ → α) : Action ε σ α := fun s ↦ .done (read s) s

/-- Change the state. -/
@[inline]
def change (update : σ → σ) : Action ε σ Unit := fun s ↦ .done () (update s)

@[simp]
theorem pure_apply (value : α) (s : σ) : (pure value : Action ε σ α) s = .done value s := rfl

/-- A sequence of two actions, with the state in hand.  It is not a simp lemma: most proofs want to
keep a sequence together and to use what is known of its first part. -/
theorem bind_apply (first : Action ε σ α) (next : α → Action ε σ β) (s : σ) :
    (first >>= next) s =
      match first s with
      | .done value s => next value s
      | .stop reason s => .stop reason s
      | .exhausted => .exhausted := rfl

@[simp]
theorem halt_apply (reason : ε) (s : σ) : (halt reason : Action ε σ α) s = .stop reason s := rfl

@[simp]
theorem exhaust_apply (s : σ) : (exhaust : Action ε σ α) s = .exhausted := rfl

@[simp]
theorem look_apply (read : σ → α) (s : σ) :
    (look read : Action ε σ α) s = .done (read s) s := rfl

@[simp]
theorem change_apply (update : σ → σ) (s : σ) :
    (change update : Action ε σ Unit) s = .done () (update s) := rfl

end Action

end MonkeyLang
