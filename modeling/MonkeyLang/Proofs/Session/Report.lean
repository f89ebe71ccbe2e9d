import MonkeyLang.Proofs.Eval.Simulation

/-!
# What a host sees of a run

A host sees the result of a run, which is a value or an error, and the bindings of the scopes that
it has handles to.  Both are the same for runs on two machines whose stores are alike (`alike_run`,
`Outcome.AlikeRuns.report?`): a host cannot tell the names of scopes.

Three levels are distinguished.  `Report` is the result of one run, as a host sees it.
`Store.shown?` is what it sees of one scope, and `Outcome.seen` takes the result together with all
scopes.  What a host sees of a value is `Value.shown`, with texts in place of functions.

The report of a run comes with the machine after it, so that a host can go on.  Two machines after
two runs are compared by a matching, which the run has extended.  On one machine the matching is
the identity, and then all scopes look the same (`Outcome.AlikeRuns.seen_eq`).

Values that a host compares with each other are a different matter.  Whether two functions are one
and the same is not part of what is seen here.
-/

set_option autoImplicit false

namespace MonkeyLang

/-- What a host sees of the result of a run. -/
abbrev Report : Type := Except RunError Shown

/-- What a host sees of a run, and the machine after it, if the run ends. -/
def Outcome.report? : Outcome RunError Machine Value → Option (Report × Machine)
  | .done v m => some (.ok v.shown, m)
  | .stop e m => some (.error e, m)
  | .exhausted => none

/-- The names bound in a scope, each with what a host sees of its value. -/
def Store.shown? (s : Store) (id : ScopeId) : Option (List (String × Shown)) :=
  (s.scope? id).map fun scope ↦ scope.bindings.map fun p ↦ (p.1, p.2.shown)

/-- All that a host sees of a run: its report, and the bindings of every scope after it.  There is
nothing to see if the run does not end. -/
def Outcome.seen (o : Outcome RunError Machine Value) :
    Option (Report × (ScopeId → Option (List (String × Shown)))) :=
  o.report?.map fun p ↦ (p.1, p.2.store.shown?)

/-- Bindings that are alike look the same. -/
theorem AlikePairs.shown_eq {ρ : ScopeId → ScopeId → Prop} {ps qs : List (String × Value)}
    (h : AlikePairs ρ ps qs) :
    qs.map (fun p ↦ (p.1, p.2.shown)) = ps.map fun p ↦ (p.1, p.2.shown) := by
  induction h with
  | nil => rfl
  | cons hpq _ ih => rw [List.map_cons, List.map_cons, hpq.1, hpq.2.shown_eq, ih]

/-- Matched scopes look the same. -/
theorem Store.Alike.shown?_eq {ρ : ScopeId → ScopeId → Prop} {s t : Store} (h : s.Alike ρ t)
    {i j : ScopeId} (hij : ρ i j) : t.shown? j = s.shown? i := by
  rw [Store.shown?, Store.shown?]
  obtain ⟨ha, hb⟩ | ⟨a, b, ha, hb, hab⟩ := optionRel_cases (h.scopes hij)
  · rw [ha, hb]
  · rw [ha, hb, Option.map_some, Option.map_some, hab.bindings.shown_eq]

/-! ## Runs on two machines -/

/-- Started on the machines `m` and `m'`, two runs end in the same way, with values that are alike
or the same error, and leave stores that are alike. -/
def Outcome.AlikeRuns (ρ : ScopeId → ScopeId → Prop) (m m' : Machine) :
    Outcome RunError Machine Value → Outcome RunError Machine Value → Prop :=
  Outcome.Together
    (fun v n w n' ↦ ∃ ρ', Store.Onward ρ ρ' m.store m'.store n.store n'.store ∧ v.Alike ρ' w)
    (fun e n e' n' ↦ ∃ ρ', Store.Onward ρ ρ' m.store m'.store n.store n'.store ∧ e' = e)

/-- Statements that end in the same way make runs that do. -/
theorem Outcome.AlikeRuns.unwound {ρ : ScopeId → ScopeId → Prop} {m m' : Machine}
    {o o' : Outcome Signal Machine Value}
    (h : o.Together
      (fun v n w n' ↦ ∃ ρ', Store.Onward ρ ρ' m.store m'.store n.store n'.store ∧ v.Alike ρ' w)
      (fun e n e' n' ↦ ∃ ρ', Store.Onward ρ ρ' m.store m'.store n.store n'.store ∧ e.Alike ρ' e')
      o') :
    Outcome.AlikeRuns ρ m m' (o.unwound.mapReason .eval) (o'.unwound.mapReason .eval) := by
  refine .mapReason (Outcome.Together.unwound (h.imp (fun _ _ _ _ hvw ↦ hvw) ?_))
  rintro (v | e) n (w | e') n' ⟨ρ', hon, hsignal⟩
  · exact ⟨ρ', hon, hsignal⟩
  · exact hsignal.elim
  · exact hsignal.elim
  · exact ⟨ρ', hon, congrArg RunError.eval hsignal⟩

/-- A text runs in the same way in matched scopes. -/
theorem alike_run (depth : Nat) {ρ : ScopeId → ScopeId → Prop} {scope scope' : ScopeId}
    (hscope : ρ scope scope') (text : String) {m m' : Machine} (hm : m.store.Alike ρ m'.store) :
    Outcome.AlikeRuns ρ m m' (run depth scope text m) (run depth scope' text m') := by
  cases h : parseProgram text with
  | error errors =>
    rw [run_of_error h, run_of_error h]
    exact ⟨ρ, .of_alike hm, rfl⟩
  | ok p =>
    have hstatements := Eval.mirrors_evalSignals depth hscope id p m m' hm
    rw [Program.mapTokens, mapTokensStmts_id] at hstatements
    rw [run_of_ok h, run_of_ok h]
    exact .unwound hstatements

/-- **A host sees the same of runs that are alike.** -/
theorem Outcome.AlikeRuns.report? {ρ : ScopeId → ScopeId → Prop} {m m' : Machine}
    {o o' : Outcome RunError Machine Value} (h : o.AlikeRuns ρ m m' o') :
    (o.report? = none ∧ o'.report? = none) ∨
      ∃ report n n' ρ', o.report? = some (report, n) ∧ o'.report? = some (report, n') ∧
        Store.Onward ρ ρ' m.store m'.store n.store n'.store := by
  obtain ⟨v, n, w, n', rfl, rfl, ρ', hon, hvw⟩ | ⟨e, n, e', n', rfl, rfl, ρ', hon, rfl⟩ |
    ⟨rfl, rfl⟩ := h.inv
  · exact .inr ⟨.ok v.shown, n, n', ρ', rfl, by rw [Outcome.report?, hvw.shown_eq], hon⟩
  · exact .inr ⟨.error e', n, n', ρ', rfl, rfl, hon⟩
  · exact .inl ⟨rfl, rfl⟩

/-- On one machine, a host sees the same of the scopes as well. -/
theorem Outcome.AlikeRuns.seen_eq {m m' : Machine} {o o' : Outcome RunError Machine Value}
    (h : o.AlikeRuns Eq m m' o') : o'.seen = o.seen := by
  rw [Outcome.seen, Outcome.seen]
  obtain ⟨ho, ho'⟩ | ⟨report, n, n', ρ', ho, ho', hon⟩ := h.report?
  · rw [ho, ho']
  · have hshown : n'.store.shown? = n.store.shown? := by
      funext id
      exact hon.alike.shown?_eq (hon.keeps id id rfl)
    rw [ho, ho', Option.map_some, Option.map_some, hshown]

end MonkeyLang
