import MonkeyLang.Outcome

/-!
# Reasoning about actions

Four ways to speak about an action without opening it:

* `Outcome.Post` says what holds when an action is done and when it stops early, and what it takes
  for the bound on the depth to run out.  `Outcome.Post.bind` follows a sequence of actions.
* `Outcome.Together` does the same for two actions side by side, which end in the same way.
* `Action.Below` compares two actions that differ in their bounds: where the first one comes to an
  end, the second one comes to the same.
* `Settles` is what a family of actions comes to once its bound is large enough.

All of them are about the readers of tokens and about the evaluation of programs alike.  Every
property of readers and of evaluations is one of the first two at some choice of predicates, and is
proved for the basic actions and for sequences once and then followed through the constructs.

## The bound on the depth

Statements about programs must not mention a bound.  There are two ways to get rid of it.  A
statement about whatever happens, such as that no scope is lost, holds with every bound, and
`Outcome.Post` with `True` for the exhausted outcome says so.  A statement that something does
happen has to say that the bound was large enough, and this is `Settles`: from some bound on the
outcome is the same.

A program that runs forever settles too, on `Outcome.exhausted`: no bound is enough for it.  So
every program settles on one outcome (`Settles.exists_of_grow`, `Settles.unique`), and two programs
can be compared by their outcomes without a case apart for those that do not end.  What makes this
work is that larger bounds change nothing, `Action.Below`.  The existence of the outcome is not
constructive, and has to be so: it would decide whether a program ends.
-/

set_option autoImplicit false

namespace MonkeyLang

variable {ε σ α β : Type}

/-! ## What holds at the end -/

/-- What an outcome says: `done` of a value and the state with it, `stop` of a reason and the state
with it, and `exhausted` if the bound ran out.  The third predicate is a single proposition.  It is
`True` where nothing is claimed about bounds, and `False` where a bound is shown to be enough. -/
def Outcome.Post (done : α → σ → Prop) (stop : ε → σ → Prop) (exhausted : Prop) :
    Outcome ε σ α → Prop
  | .done value s => done value s
  | .stop reason s => stop reason s
  | .exhausted => exhausted

namespace Outcome.Post

/-- What follows from what holds at the end holds there too. -/
theorem imp {done done' : α → σ → Prop} {stop stop' : ε → σ → Prop} {exhausted : Prop}
    {o : Outcome ε σ α} (h : o.Post done stop exhausted) (hdone : ∀ v s, done v s → done' v s)
    (hstop : ∀ e s, stop e s → stop' e s) : o.Post done' stop' exhausted := by
  cases o with
  | done v s => exact hdone v s h
  | stop e s => exact hstop e s h
  | exhausted => exact h

/-- What a sequence of two actions comes to.  What is claimed of an early stop has to be the same
for both actions, because it can happen in either. -/
theorem bind {done : α → σ → Prop} {done' : β → σ → Prop} {stop : ε → σ → Prop} {exhausted : Prop}
    {first : Action ε σ α} {next : α → Action ε σ β} {s : σ}
    (hfirst : (first s).Post done stop exhausted)
    (hnext : ∀ v s', done v s' → (next v s').Post done' stop exhausted) :
    ((first >>= next) s).Post done' stop exhausted := by
  rw [Action.bind_apply]
  cases hs : first s with
  | done v s' =>
    rw [hs] at hfirst
    exact hnext v s' hfirst
  | stop e s' =>
    rw [hs] at hfirst
    exact hfirst
  | exhausted =>
    rw [hs] at hfirst
    exact hfirst

end Outcome.Post

theorem Outcome.mapReason_ne_exhausted {ε' : Type} {f : ε → ε'} {o : Outcome ε σ α}
    (h : o.mapReason f ≠ .exhausted) : o ≠ .exhausted := by
  rintro rfl
  exact h rfl

/-! ## Two actions side by side

The two actions need not be of the same type, and their states can be as different as two machines
with other scopes are.  What is related to what is up to the two relations, which see both values
or both reasons with both states. -/

/-- Two outcomes of the same form: both done with `done` between the values and states, both
stopped early with `stop` between the reasons and states, or both without an end.  The relations
can be anything, between types that may be different.  Most relations between runs in this library
are of this form. -/
def Outcome.Together {ε' σ' α' : Type} (done : α → σ → α' → σ' → Prop)
    (stop : ε → σ → ε' → σ' → Prop) : Outcome ε σ α → Outcome ε' σ' α' → Prop
  | .done v s, .done w t => done v s w t
  | .stop e s, .stop e' t => stop e s e' t
  | .exhausted, .exhausted => True
  | _, _ => False

namespace Outcome.Together

variable {ε' σ' α' β' : Type} {stop : ε → σ → ε' → σ' → Prop}

/-- The three ways in which two actions end together. -/
theorem inv {done : α → σ → α' → σ' → Prop} {o : Outcome ε σ α} {o' : Outcome ε' σ' α'}
    (h : o.Together done stop o') :
    (∃ v s w t, o = .done v s ∧ o' = .done w t ∧ done v s w t) ∨
    (∃ e s e' t, o = .stop e s ∧ o' = .stop e' t ∧ stop e s e' t) ∨
    (o = .exhausted ∧ o' = .exhausted) := by
  cases o <;> cases o'
  · exact .inl ⟨_, _, _, _, rfl, rfl, h⟩
  · exact h.elim
  · exact h.elim
  · exact h.elim
  · exact .inr (.inl ⟨_, _, _, _, rfl, rfl, h⟩)
  · exact h.elim
  · exact h.elim
  · exact h.elim
  · exact .inr (.inr ⟨rfl, rfl⟩)

/-- What follows from what goes together goes together too. -/
theorem imp {done done' : α → σ → α' → σ' → Prop} {stop' : ε → σ → ε' → σ' → Prop}
    {o : Outcome ε σ α} {o' : Outcome ε' σ' α'} (h : o.Together done stop o')
    (hdone : ∀ v s w t, done v s w t → done' v s w t)
    (hstop : ∀ e s e' t, stop e s e' t → stop' e s e' t) : o.Together done' stop' o' := by
  obtain ⟨v, s, w, t, rfl, rfl, hvw⟩ | ⟨e, s, e', t, rfl, rfl, he⟩ | ⟨rfl, rfl⟩ := h.inv
  · exact hdone v s w t hvw
  · exact hstop e s e' t he
  · exact trivial

/-- What holds when the first action is done can be put beside what holds of both.  This puts an
invariant of one run beside a relation between two. -/
theorem and_post {done : α → σ → α' → σ' → Prop} {done₁ : α → σ → Prop} {stop₁ : ε → σ → Prop}
    {exhausted : Prop} {o : Outcome ε σ α} {o' : Outcome ε' σ' α'} (h : o.Together done stop o')
    (hpost : o.Post done₁ stop₁ exhausted) :
    o.Together (fun v s w t ↦ done v s w t ∧ done₁ v s) stop o' := by
  obtain ⟨v, s, w, t, rfl, rfl, hvw⟩ | ⟨e, s, e', t, rfl, rfl, he⟩ | ⟨rfl, rfl⟩ := h.inv
  · exact ⟨hvw, hpost⟩
  · exact he
  · exact trivial

/-- Two outcomes go together if they do with other words for the reasons. -/
theorem mapReason {ε₁ ε₁' : Type} {f : ε → ε₁} {f' : ε' → ε₁'} {done : α → σ → α' → σ' → Prop}
    {stop : ε₁ → σ → ε₁' → σ' → Prop} {o : Outcome ε σ α} {o' : Outcome ε' σ' α'}
    (h : o.Together done (fun e s e' t ↦ stop (f e) s (f' e') t) o') :
    (o.mapReason f).Together done stop (o'.mapReason f') := by
  obtain ⟨v, s, w, t, rfl, rfl, hvw⟩ | ⟨e, s, e', t, rfl, rfl, he⟩ | ⟨rfl, rfl⟩ := h.inv
  · exact hvw
  · exact he
  · exact trivial

/-- Two sequences of two actions go together if their parts do. -/
theorem bind {done : α → σ → α' → σ' → Prop} {done' : β → σ → β' → σ' → Prop}
    {first : Action ε σ α} {first' : Action ε' σ' α'} {next : α → Action ε σ β}
    {next' : α' → Action ε' σ' β'} {s : σ} {t : σ'}
    (hfirst : (first s).Together done stop (first' t))
    (hnext : ∀ v s w t, done v s w t → (next v s).Together done' stop (next' w t)) :
    ((first >>= next) s).Together done' stop ((first' >>= next') t) := by
  rw [Action.bind_apply, Action.bind_apply]
  obtain ⟨v, s', w, t', hs, ht, hvw⟩ | ⟨e, s', e', t', hs, ht, he⟩ | ⟨hs, ht⟩ := hfirst.inv
  · rw [hs, ht]
    exact hnext v s' w t' hvw
  · rw [hs, ht]
    exact he
  · rw [hs, ht]
    exact trivial

end Outcome.Together

namespace Action

/-- A sequence of two actions is done when both are. -/
theorem bind_eq_done {first : Action ε σ α} {next : α → Action ε σ β} {s s'' : σ} {w : β}
    (h : (first >>= next) s = .done w s'') :
    ∃ v s', first s = .done v s' ∧ next v s' = .done w s'' := by
  rw [bind_apply] at h
  cases hs : first s with
  | done v s' => exact ⟨v, s', rfl, by rw [hs] at h; exact h⟩
  | stop e s' => rw [hs] at h; exact absurd h (by simp)
  | exhausted => rw [hs] at h; exact absurd h (by simp)

/-- A sequence whose first action is done goes on with what that one left. -/
theorem bind_of_done {first : Action ε σ α} {s s' : σ} {v : α} (h : first s = .done v s')
    (next : α → Action ε σ β) : (first >>= next) s = next v s' := by
  rw [bind_apply, h]

/-! ## Larger bounds

A larger bound can only turn `Outcome.exhausted` into an end.  The relation is on actions and not
on outcomes, so that it can be proved by following the constructs, with the state left out. -/

/-- Wherever `first` comes to an end, `second` comes to the same end.  Nothing is said of where
`first` runs out of its bound. -/
def Below (first second : Action ε σ α) : Prop :=
  ∀ s, first s ≠ .exhausted → second s = first s

namespace Below

theorem refl (action : Action ε σ α) : action.Below action := fun _ _ ↦ rfl

theorem trans {a b c : Action ε σ α} (hab : a.Below b) (hbc : b.Below c) : a.Below c := by
  intro s h
  have hb := hab s h
  rw [hbc s (hb ▸ h), hb]

theorem exhaust (action : Action ε σ α) : Action.exhaust.Below action :=
  fun _ h ↦ absurd rfl h

theorem ite {c : Prop} [Decidable c] {a a' b b' : Action ε σ α} (ha : a.Below a')
    (hb : b.Below b') : (if c then a else b).Below (if c then a' else b') := by
  split
  · exact ha
  · exact hb

/-- A sequence comes to an end only if both of its actions do, so it is enough that they do so in
the same way with the larger bound. -/
theorem bind {first second : Action ε σ α} {next later : α → Action ε σ β}
    (h : first.Below second) (hnext : ∀ v, (next v).Below (later v)) :
    (first >>= next).Below (second >>= later) := by
  intro s hs
  rw [bind_apply] at hs
  cases hfirst : first s with
  | done v s' =>
    rw [hfirst] at hs
    rw [bind_of_done hfirst, bind_of_done ((h s (by simp [hfirst])).trans hfirst)]
    exact hnext v s' hs
  | stop e s' => rw [bind_apply, bind_apply, h s (by simp [hfirst]), hfirst]
  | exhausted =>
    rw [hfirst] at hs
    exact absurd rfl hs

/-- What grows with each unit of its bound grows with any number of them. -/
theorem of_le {family : Nat → Action ε σ α}
    (hgrow : ∀ depth, (family depth).Below (family (depth + 1))) {m n : Nat} (h : m ≤ n) :
    (family m).Below (family n) := by
  induction h with
  | refl => exact refl _
  | step _ ih => exact ih.trans (hgrow _)

end Below

end Action

/-! ## Large enough bounds -/

/-- From some bound on, the family of actions comes to the outcome `o` in the state `s`.  `Settles`
follows the constructs as well: there is a lemma for each way in which a sequence can go.  The
bounds of the parts are put together by taking the larger one. -/
def Settles (family : Nat → Action ε σ α) (s : σ) (o : Outcome ε σ α) : Prop :=
  ∃ least, ∀ depth, least ≤ depth → family depth s = o

namespace Settles

theorem of_forall {family : Nat → Action ε σ α} {s : σ} {o : Outcome ε σ α}
    (h : ∀ depth, family depth s = o) : Settles family s o :=
  ⟨0, fun depth _ ↦ h depth⟩

/-- One unit of the bound more or less does not matter. -/
theorem succ {family : Nat → Action ε σ α} {s : σ} {o : Outcome ε σ α}
    (h : Settles (fun depth ↦ family (depth + 1)) s o) : Settles family s o := by
  obtain ⟨least, h⟩ := h
  refine ⟨least + 1, fun depth hle ↦ ?_⟩
  obtain ⟨n, rfl⟩ : ∃ n, depth = n + 1 := ⟨depth - 1, by omega⟩
  exact h n (by omega)

theorem ite_pos {c : Prop} [Decidable c] {family other : Nat → Action ε σ α} {s : σ}
    {o : Outcome ε σ α} (hc : c) (h : Settles family s o) :
    Settles (fun depth ↦ if c then family depth else other depth) s o := by
  simp only [if_pos hc]
  exact h

theorem ite_neg {c : Prop} [Decidable c] {family other : Nat → Action ε σ α} {s : σ}
    {o : Outcome ε σ α} (hc : ¬ c) (h : Settles other s o) :
    Settles (fun depth ↦ if c then family depth else other depth) s o := by
  simp only [if_neg hc]
  exact h

/-- After a first action that settles on being done, the sequence settles on what the second one
does. -/
theorem bind {first : Nat → Action ε σ α} {next : Nat → α → Action ε σ β} {s s' : σ} {v : α}
    {o : Outcome ε σ β} (hfirst : Settles first s (.done v s'))
    (hnext : Settles (fun depth ↦ next depth v) s' o) :
    Settles (fun depth ↦ first depth >>= next depth) s o := by
  obtain ⟨m, hm⟩ := hfirst
  obtain ⟨n, hn⟩ := hnext
  refine ⟨max m n, fun depth hle ↦ ?_⟩
  exact (Action.bind_of_done (hm depth (by omega)) _).trans (hn depth (by omega))

/-- An early stop is the end of a sequence. -/
theorem bind_stop {first : Nat → Action ε σ α} {next : Nat → α → Action ε σ β} {s s' : σ} {e : ε}
    (hfirst : Settles first s (.stop e s')) :
    Settles (fun depth ↦ first depth >>= next depth) s (.stop e s') := by
  obtain ⟨least, h⟩ := hfirst
  refine ⟨least, fun depth hle ↦ ?_⟩
  show (first depth >>= next depth) s = _
  rw [Action.bind_apply, h depth hle]

/-- An action that never comes to an end holds up all that is after it. -/
theorem bind_exhausted {first : Nat → Action ε σ α} {next : Nat → α → Action ε σ β} {s : σ}
    (hfirst : Settles first s .exhausted) :
    Settles (fun depth ↦ first depth >>= next depth) s .exhausted := by
  obtain ⟨least, h⟩ := hfirst
  refine ⟨least, fun depth hle ↦ ?_⟩
  show (first depth >>= next depth) s = _
  rw [Action.bind_apply, h depth hle]

/-- There is only one outcome to settle on.  The larger of two bounds is large enough for both. -/
theorem unique {family : Nat → Action ε σ α} {s : σ} {o o' : Outcome ε σ α}
    (h : Settles family s o) (h' : Settles family s o') : o = o' := by
  obtain ⟨m, hm⟩ := h
  obtain ⟨n, hn⟩ := h'
  rw [← hm (max m n) (by omega), ← hn (max m n) (by omega)]

/-- One bound that is enough shows what a growing family settles on. -/
theorem of_ne_exhausted {family : Nat → Action ε σ α}
    (hgrow : ∀ depth, (family depth).Below (family (depth + 1))) {s : σ} {depth : Nat}
    (hne : family depth s ≠ .exhausted) : Settles family s (family depth s) :=
  ⟨depth, fun _ hle ↦ Action.Below.of_le hgrow hle s hne⟩

/-- A family that only grows takes its settled outcome wherever it comes to an end. -/
theorem eq_of_ne_exhausted {family : Nat → Action ε σ α} {s : σ} {o : Outcome ε σ α}
    (h : Settles family s o) (hgrow : ∀ depth, (family depth).Below (family (depth + 1)))
    {depth : Nat} (hne : family depth s ≠ .exhausted) : family depth s = o :=
  (of_ne_exhausted hgrow hne).unique h

/-- A family that only grows settles: on an end that it comes to, or on never coming to one.  This
is the one place where it is decided whether a run ends.  The outcome is not computed, and cannot
be. -/
theorem exists_of_grow {family : Nat → Action ε σ α}
    (hgrow : ∀ depth, (family depth).Below (family (depth + 1))) (s : σ) :
    ∃ o, Settles family s o := by
  by_cases h : ∃ depth, family depth s ≠ .exhausted
  · obtain ⟨depth, hne⟩ := h
    exact ⟨_, of_ne_exhausted hgrow hne⟩
  · exact ⟨.exhausted, 0, fun depth _ ↦ Classical.not_not.1 fun hne ↦ h ⟨depth, hne⟩⟩

/-- Two families that go together bound by bound settle on outcomes that go together.  The proof
goes bound by bound, so that running out together is part of going together. -/
theorem together {ε' σ' α' : Type} {family : Nat → Action ε σ α} {other : Nat → Action ε' σ' α'}
    {done : α → σ → α' → σ' → Prop} {stop : ε → σ → ε' → σ' → Prop} {s : σ} {t : σ'}
    {o : Outcome ε σ α} {o' : Outcome ε' σ' α'} (hs : Settles family s o) (ht : Settles other t o')
    (h : ∀ depth, (family depth s).Together done stop (other depth t)) :
    o.Together done stop o' := by
  obtain ⟨m, hm⟩ := hs
  obtain ⟨n, hn⟩ := ht
  have htogether := h (max m n)
  rwa [hm _ (by omega), hn _ (by omega)] at htogether

end Settles

end MonkeyLang
