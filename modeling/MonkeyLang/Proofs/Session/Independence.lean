import Mathlib
import MonkeyLang.Proofs.Session.Report

/-!
# Sessions do not see each other

A host opens sessions and runs texts in them, in any order.  All sessions share one machine, and
the functions that one of them keeps refer to scopes between those of the others.  Still each
session goes on as if it were the only one: `sessions_independent`.

The proof follows one session on two machines, the shared one and one of its own.  The scopes that
the session can reach are matched (`Host.Follows`).  A run in this session goes the same way on
both machines and matches the scopes that it makes.  Whatever else happens on the shared machine
writes to scopes that are not matched.

## Two kinds of steps

For a step of the session itself there is the simulation of `MonkeyLang.Proofs.Eval.Simulation`:
both machines move, and the matching grows.  For a step of another session only the shared machine
moves.  It has to leave alone all scopes that are matched, and here it is used that a run writes to
the scope of its session and to scopes that it makes.  Scopes that other sessions made by calls are
never written to again.

A session consists of its own scope and of what can be reached from there.  The invariant says that
the scopes of the *other* sessions are not matched.  So they are not reachable.

## What is compared

Reports of runs, in order, and the bindings of the session in the end, as a host sees them.  The
numbers of programs differ between the two machines, because all sessions count together.  Nothing
that is compared depends on them.  What is printed is not part of a report; it goes to the machine
that all sessions share.
-/

set_option autoImplicit false

namespace MonkeyLang

/-! ## Hosts -/

/-- What a host is asked for: a new session, or to run a text in one of the sessions, which are
counted from zero. -/
inductive Request where
  | new
  | run (session : Nat) (text : String)

/-- A machine with the scopes of the sessions on it.  All sessions share the store and the printed
text, and nothing separates them but the scopes that they start from. -/
structure Host where
  machine : Machine
  sessions : List ScopeId

namespace Host

/-- Open a session. -/
def new (h : Host) : Host :=
  ⟨(h.machine.newScope none).2, h.sessions ++ [(h.machine.newScope none).1]⟩

/-- Run a text in a session. -/
def run (depth : Nat) (h : Host) (k : Nat) (text : String) : Option (Report × Host) := do
  let scope ← h.sessions[k]?
  let (report, m) ← (MonkeyLang.run depth scope text h.machine).report?
  return (report, { h with machine := m })

/-- Serve requests in order.  Each run gives a report, which comes with the number of its session.
There is no result if a run does not end within the depth, or if there is no such session.  A host
serves requests one after the other.  A request that is not answered ends the service, so the
theorems are about lists of requests whose runs all end. -/
def serve (depth : Nat) : List Request → Host → Option (List (Nat × Report) × Host)
  | [], h => some ([], h)
  | .new :: requests, h => serve depth requests h.new
  | .run k text :: requests, h => do
    let (report, h) ← h.run depth k text
    let (reports, h) ← serve depth requests h
    return ((k, report) :: reports, h)

/-- All requests are served, so that all runs end. -/
def Serves (h : Host) (requests : List Request) (reports : List (Nat × Report)) (h' : Host) :
    Prop :=
  ∃ depth, serve depth requests h = some (reports, h')

end Host

/-- The texts that are to be run in a session.  They come in the order in which they are asked for.
-/
def textsFor (k : Nat) (requests : List Request) : List String :=
  requests.filterMap fun
    | .new => none
    | .run j text => if j = k then some text else none

/-- The reports of the runs in a session. -/
def reportsOf (k : Nat) (reports : List (Nat × Report)) : List Report :=
  reports.filterMap fun p ↦ if p.1 = k then some p.2 else none

section Own

variable {j k : Nat} {text : String} {requests : List Request} {report : Report}
variable {reports : List (Nat × Report)}

theorem textsFor_new : textsFor k (.new :: requests) = textsFor k requests := rfl

theorem textsFor_own : textsFor k (.run k text :: requests) = text :: textsFor k requests := by
  simp [textsFor]

theorem textsFor_other (h : j ≠ k) :
    textsFor k (.run j text :: requests) = textsFor k requests := by
  simp [textsFor, h]

theorem reportsOf_own : reportsOf k ((k, report) :: reports) = report :: reportsOf k reports := by
  simp [reportsOf]

theorem reportsOf_other (h : j ≠ k) :
    reportsOf k ((j, report) :: reports) = reportsOf k reports := by
  simp [reportsOf, h]

end Own

/-! ## Serving step by step -/

theorem report?_of_le {scope : ScopeId} {text : String} {m : Machine} {depth depth' : Nat}
    (hle : depth ≤ depth') {r : Report × Machine}
    (h : (run depth scope text m).report? = some r) :
    (run depth' scope text m).report? = some r := by
  have hne : run depth scope text m ≠ .exhausted := by
    intro hexhausted
    rw [hexhausted] at h
    cases h
  rw [Action.Below.of_le (fun depth ↦ below_run depth scope text) hle m hne, h]

/-- A run writes to the scope of its session only. -/
theorem writes_of_report? {scope : ScopeId} {text : String} {m n : Machine} {depth : Nat}
    {report : Report} (hscope : scope < m.store.size)
    (h : (run depth scope text m).report? = some (report, n)) :
    ∃ names, m.store.Writes scope names n.store := by
  cases hp : parseProgram text with
  | error errors =>
    rw [run_of_error hp] at h
    cases h
    exact ⟨[], .refl scope [] _⟩
  | ok p =>
    refine ⟨letsOfStmts p.statements, ?_⟩
    have hwithin := p.within_eval depth hscope
    rw [run_of_ok hp] at h
    cases ho : p.eval depth scope m with
    | done v m' =>
      rw [ho] at h hwithin
      cases h
      exact hwithin
    | stop e m' =>
      rw [ho] at h hwithin
      cases h
      exact hwithin
    | exhausted =>
      rw [ho] at h
      cases h

namespace Host

/-- A run that gives a report leaves the sessions where they are. -/
theorem run_eq_some {depth : Nat} {h h' : Host} {k : Nat} {text : String} {report : Report}
    (hrun : h.run depth k text = some (report, h')) :
    ∃ scope m, h.sessions[k]? = some scope ∧
      (MonkeyLang.run depth scope text h.machine).report? = some (report, m) ∧
      h' = { h with machine := m } := by
  obtain ⟨scope, hscope, hrun⟩ := Option.bind_eq_some_iff.1 hrun
  obtain ⟨⟨report', m⟩, hreport, hrun⟩ := Option.bind_eq_some_iff.1 hrun
  cases hrun
  exact ⟨scope, m, hscope, hreport, rfl⟩

theorem run_of_report? {depth : Nat} {h : Host} {k : Nat} {scope : ScopeId} {text : String}
    {report : Report} {m : Machine} (hscope : h.sessions[k]? = some scope)
    (hreport : (MonkeyLang.run depth scope text h.machine).report? = some (report, m)) :
    h.run depth k text = some (report, { h with machine := m }) := by
  rw [run, hscope, Option.bind_eq_bind, Option.bind_some, hreport]
  rfl

/-- Taking apart a service that starts with a run: the run ended, and the rest was served from
where it ended. -/
theorem serve_run_eq_some {depth : Nat} {h h' : Host} {k : Nat} {text : String}
    {requests : List Request} {reports : List (Nat × Report)}
    (hserve : serve depth (.run k text :: requests) h = some (reports, h')) :
    ∃ report h₁ more, h.run depth k text = some (report, h₁) ∧
      serve depth requests h₁ = some (more, h') ∧ reports = (k, report) :: more := by
  obtain ⟨⟨report, h₁⟩, hrun, hserve⟩ := Option.bind_eq_some_iff.1 hserve
  obtain ⟨⟨more, h₂⟩, hmore, hserve⟩ := Option.bind_eq_some_iff.1 hserve
  cases hserve
  exact ⟨report, h₁, more, hrun, hmore, rfl⟩

theorem serve_run_of_run {depth : Nat} {h h₁ h' : Host} {k : Nat} {text : String}
    {requests : List Request} {report : Report} {more : List (Nat × Report)}
    (hrun : h.run depth k text = some (report, h₁))
    (hmore : serve depth requests h₁ = some (more, h')) :
    serve depth (.run k text :: requests) h = some ((k, report) :: more, h') := by
  rw [serve, hrun, Option.bind_eq_bind, Option.bind_some]
  dsimp only
  rw [hmore]
  rfl

/-- What is served within a depth is served in the same way within a larger one. -/
theorem serve_of_le {depth depth' : Nat} (hle : depth ≤ depth') {requests : List Request}
    {h h' : Host} {reports : List (Nat × Report)}
    (hserve : serve depth requests h = some (reports, h')) :
    serve depth' requests h = some (reports, h') := by
  induction requests generalizing h reports with
  | nil => exact hserve
  | cons request requests ih =>
    cases request with
    | new => exact ih hserve
    | run k text =>
      obtain ⟨report, h₁, more, hrun, hmore, rfl⟩ := serve_run_eq_some hserve
      obtain ⟨scope, m, hscope, hreport, rfl⟩ := run_eq_some hrun
      exact serve_run_of_run (run_of_report? hscope (report?_of_le hle hreport)) (ih hmore)

/-- There is only one way to serve requests. -/
theorem Serves.unique {h h₁ h₂ : Host} {requests : List Request}
    {reports₁ reports₂ : List (Nat × Report)} (hserves₁ : h.Serves requests reports₁ h₁)
    (hserves₂ : h.Serves requests reports₂ h₂) : reports₁ = reports₂ ∧ h₁ = h₂ := by
  obtain ⟨depth₁, hserve₁⟩ := hserves₁
  obtain ⟨depth₂, hserve₂⟩ := hserves₂
  have h₁ := serve_of_le (Nat.le_max_left depth₁ depth₂) hserve₁
  have h₂ := serve_of_le (Nat.le_max_right depth₁ depth₂) hserve₂
  rw [h₁] at h₂
  cases h₂
  exact ⟨rfl, rfl⟩

/-! ## Following one session -/

/-- The scopes of the sessions exist.  The number of a session always names one of the scopes of
the machine, so that a run can be started in it. -/
def Valid (h : Host) : Prop :=
  ∀ (j : Nat) (scope : ScopeId), h.sessions[j]? = some scope → scope < h.machine.store.size

/-- The only session of the host `own` is where session `k` of `host` is: what it can reach is
matched, and the other sessions are not.  The invariant relates a host with one session to a host
with many, from the moment on at which the session is opened. -/
structure Follows (ρ : ScopeId → ScopeId → Prop) (k : Nat) (own host : Host) : Prop where
  matched : ∃ scope scope', own.sessions = [scope] ∧ host.sessions[k]? = some scope' ∧
    ρ scope scope'
  alike : own.machine.store.Alike ρ host.machine.store
  made : ∀ i j : Nat, ρ i j → i < own.machine.store.size ∧ j < host.machine.store.size
  valid : host.Valid
  apart : ∀ j scope, host.sessions[j]? = some scope → j ≠ k → ∀ i, ¬ ρ i scope

theorem size_new (h : Host) : h.new.machine.store.size = h.machine.store.size + 1 :=
  Store.size_add _ _

theorem new_sessions_of_lt {h : Host} {j : Nat} (hj : j < h.sessions.length) :
    h.new.sessions[j]? = h.sessions[j]? :=
  List.getElem?_append_left hj

theorem new_sessions_length (h : Host) :
    h.new.sessions[h.sessions.length]? = some h.machine.store.size :=
  List.getElem?_concat_length

/-- The sessions are those from before and the new one. -/
theorem new_sessions_cases {h : Host} {j : Nat} {scope : ScopeId}
    (hj : h.new.sessions[j]? = some scope) :
    h.sessions[j]? = some scope ∨ j = h.sessions.length ∧ scope = h.machine.store.size := by
  by_cases hlt : j < h.sessions.length
  · rw [new_sessions_of_lt hlt] at hj
    exact .inl hj
  · obtain ⟨hbound, -⟩ := List.getElem?_eq_some_iff.1 hj
    rw [new, List.length_append, List.length_singleton] at hbound
    obtain rfl : j = h.sessions.length := by omega
    rw [new_sessions_length] at hj
    exact .inr ⟨rfl, (Option.some.inj hj).symm⟩

theorem Valid.new {h : Host} (hvalid : h.Valid) : h.new.Valid := by
  intro j scope hj
  rw [size_new]
  obtain hold | ⟨-, rfl⟩ := new_sessions_cases hj
  · exact Nat.lt_succ_of_lt (hvalid j scope hold)
  · exact Nat.lt_succ_self _

/-- The scopes of sessions stay there. -/
theorem Valid.of_grows {h : Host} (hvalid : h.Valid) {m : Machine}
    (hgrows : h.machine.store.size ≤ m.store.size) : Valid { h with machine := m } :=
  fun j scope hj ↦ Nat.lt_of_lt_of_le (hvalid j scope hj) hgrows

namespace Follows

variable {ρ : ScopeId → ScopeId → Prop} {k : Nat} {own host : Host}

/-- Something happens on the shared machine that changes no matched scope.  This covers all that
happens for other sessions. -/
theorem of_same (h : Follows ρ k own host) {m : Machine}
    (hgrows : host.machine.store.size ≤ m.store.size)
    (hsame : ∀ i j, ρ i j → m.store.scope? j = host.machine.store.scope? j) :
    own.machine.store.Alike ρ m.store where
  order := h.alike.order
  level := by
    intro i j hij
    obtain ⟨hi, hj⟩ := h.made i j hij
    exact .inl ⟨hi, Nat.lt_of_lt_of_le hj hgrows⟩
  scopes := by
    intro i j hij
    rw [hsame i j hij]
    exact h.alike.scopes hij

/-- A run in another session. -/
theorem other_run (h : Follows ρ k own host) {depth j : Nat} (hj : j ≠ k) {text : String}
    {report : Report} {host' : Host} (hrun : host.run depth j text = some (report, host')) :
    Follows ρ k own host' := by
  obtain ⟨scope, m, hscope, hreport, rfl⟩ := run_eq_some hrun
  obtain ⟨names, hwrites⟩ := writes_of_report? (h.valid j scope hscope) hreport
  have hsame : ∀ i i', ρ i i' → m.store.scope? i' = host.machine.store.scope? i' := by
    intro i i' hii'
    refine hwrites.others i' (h.made i i' hii').2 ?_
    rintro rfl
    exact h.apart j i' hscope hj i hii'
  refine ⟨h.matched, h.of_same hwrites.grows hsame, fun i i' hii' ↦ ?_, h.valid.of_grows
    hwrites.grows, h.apart⟩
  obtain ⟨hi, hi'⟩ := h.made i i' hii'
  exact ⟨hi, Nat.lt_of_lt_of_le hi' hwrites.grows⟩

/-- A session is opened. -/
theorem new (h : Follows ρ k own host) : Follows ρ k own host.new := by
  have hsize := host.size_new
  have hsame : ∀ i j, ρ i j →
      host.new.machine.store.scope? j = host.machine.store.scope? j :=
    fun i j hij ↦ Store.scope?_add _ _ (h.made i j hij).2
  refine ⟨?_, h.of_same (by omega) hsame, fun i j hij ↦ ?_, h.valid.new, ?_⟩
  · obtain ⟨scope, scope', hown, hhost, hmatch⟩ := h.matched
    obtain ⟨hk, -⟩ := List.getElem?_eq_some_iff.1 hhost
    exact ⟨scope, scope', hown, (new_sessions_of_lt hk).trans hhost, hmatch⟩
  · obtain ⟨hi, hj⟩ := h.made i j hij
    exact ⟨hi, by omega⟩
  · intro j scope hscope hj i hmatch
    obtain hold | ⟨-, rfl⟩ := new_sessions_cases hscope
    · exact h.apart j scope hold hj i hmatch
    · -- no scope was matched before it was made
      exact Nat.lt_irrefl _ (h.made i _ hmatch).2

/-- A run in the session itself. -/
theorem own_run (h : Follows ρ k own host) {depth : Nat} {text : String} {report : Report}
    {host' : Host} (hrun : host.run depth k text = some (report, host')) :
    ∃ own' ρ', own.run depth 0 text = some (report, own') ∧ Follows ρ' k own' host' := by
  obtain ⟨scope', m', hscope', hreport', rfl⟩ := run_eq_some hrun
  obtain ⟨scope, scope₁, hown, hscope₁, hmatch⟩ := h.matched
  obtain rfl : scope₁ = scope' := Option.some.inj (hscope₁.symm.trans hscope')
  obtain ⟨-, hnone⟩ | ⟨report₁, m, m₁, ρ', hreport, hreport₁, hon⟩ :=
    (alike_run depth hmatch text h.alike).report?
  · rw [hreport'] at hnone
    cases hnone
  obtain ⟨rfl, rfl⟩ : report = report₁ ∧ m' = m₁ :=
    Prod.mk.inj (Option.some.inj (hreport'.symm.trans hreport₁))
  have hown' : own.sessions[0]? = some scope := by rw [hown]; rfl
  refine ⟨{ own with machine := m }, ρ', run_of_report? hown' hreport, ?_⟩
  refine ⟨⟨scope, scope₁, hown, hscope₁, hon.keeps _ _ hmatch⟩, hon.alike, fun i j hij ↦ ?_,
    h.valid.of_grows hon.right, fun j other hother hj i hij ↦ ?_⟩
  · by_cases hold : ρ i j
    · obtain ⟨hi, hj⟩ := h.made i j hold
      exact ⟨Nat.lt_of_lt_of_le hi hon.left, Nat.lt_of_lt_of_le hj hon.right⟩
    · obtain ⟨⟨-, hi⟩, -, hj⟩ := hon.fresh hij hold
      exact ⟨hi, hj⟩
  · -- the scopes matched anew did not exist when the other session was opened
    have hold : ¬ ρ i other := h.apart j other hother hj i
    obtain ⟨-, hnew, -⟩ := hon.fresh hij hold
    exact absurd (h.valid j other hother) (Nat.not_lt.2 hnew)

/-- Opening the session on both machines. -/
theorem start (m : Machine) (hvalid : host.Valid) :
    Follows (fun i j ↦ i = m.store.size ∧ j = host.machine.store.size) host.sessions.length
      (Host.new ⟨m, []⟩) host.new := by
  have hsize : (Host.new ⟨m, []⟩).machine.store.size = m.store.size + 1 := size_new _
  have hsize' := host.size_new
  refine ⟨⟨_, _, rfl, new_sessions_length host, rfl, rfl⟩, ⟨?_, ?_, ?_⟩, ?_, hvalid.new, ?_⟩
  · rintro i j i' j' ⟨rfl, rfl⟩ ⟨rfl, rfl⟩
    exact ⟨fun h ↦ absurd h (Nat.lt_irrefl _), fun h ↦ absurd h (Nat.lt_irrefl _)⟩
  · rintro i j ⟨rfl, rfl⟩
    exact .inl ⟨by omega, by omega⟩
  · rintro i j ⟨rfl, rfl⟩
    have hempty : ∀ m : Machine,
        (m.newScope none).2.store.scope? m.store.size = some ⟨[], none⟩ :=
      fun m ↦ Store.scope?_add_size m.store ⟨[], none⟩
    rw [Host.new, Host.new, hempty, hempty]
    exact .some ⟨.nil, .none⟩
  · rintro i j ⟨rfl, rfl⟩
    exact ⟨by omega, by omega⟩
  · rintro j scope hscope hj i ⟨-, rfl⟩
    obtain hold | ⟨hlength, -⟩ := new_sessions_cases hscope
    · exact Nat.lt_irrefl _ (hvalid j _ hold)
    · exact hj hlength

/-- All requests after the session was opened. -/
theorem serve (h : Follows ρ k own host) {depth : Nat} {requests : List Request}
    {reports : List (Nat × Report)} {host' : Host}
    (hserve : Host.serve depth requests host = some (reports, host')) :
    ∃ alone own' ρ',
      Host.serve depth ((textsFor k requests).map (.run 0)) own = some (alone, own') ∧
        reportsOf 0 alone = reportsOf k reports ∧ Follows ρ' k own' host' := by
  induction requests generalizing own host reports ρ with
  | nil =>
    cases hserve
    exact ⟨[], own, ρ, rfl, rfl, h⟩
  | cons request requests ih =>
    cases request with
    | new => exact ih h.new hserve
    | run j text =>
      obtain ⟨report, host₁, more, hrun, hmore, rfl⟩ := serve_run_eq_some hserve
      by_cases hj : j = k
      · subst hj
        obtain ⟨own₁, ρ₁, hown, hfollows⟩ := h.own_run hrun
        obtain ⟨alone, own', ρ', halone, hreports, hend⟩ := ih hfollows hmore
        refine ⟨(0, report) :: alone, own', ρ', ?_, ?_, hend⟩
        · rw [textsFor_own, List.map_cons]
          exact serve_run_of_run hown halone
        · rw [reportsOf_own, reportsOf_own, hreports]
      · obtain ⟨alone, own', ρ', halone, hreports, hend⟩ := ih (h.other_run hj hrun) hmore
        rw [textsFor_other hj, reportsOf_other hj]
        exact ⟨alone, own', ρ', halone, hreports, hend⟩

end Follows

/-- All requests, with the session still to be opened.  Sessions are numbered as they are opened,
so the requests before the session was opened cannot be about it. -/
theorem serve_alone (m : Machine) {depth k : Nat} {scope : ScopeId} {requests : List Request}
    {host host' : Host} {reports : List (Nat × Report)} (hvalid : host.Valid)
    (hlength : host.sessions.length ≤ k)
    (hserve : serve depth requests host = some (reports, host'))
    (hk : host'.sessions[k]? = some scope) :
    ∃ alone own ρ,
      serve depth ((textsFor k requests).map (.run 0)) (new ⟨m, []⟩) = some (alone, own) ∧
        reportsOf 0 alone = reportsOf k reports ∧ Follows ρ k own host' := by
  induction requests generalizing host reports with
  | nil =>
    cases hserve
    obtain ⟨hlt, -⟩ := List.getElem?_eq_some_iff.1 hk
    omega
  | cons request requests ih =>
    cases request with
    | new =>
      by_cases hk' : host.sessions.length = k
      · subst hk'
        rw [textsFor_new]
        exact (Follows.start m hvalid).serve hserve
      · refine ih hvalid.new ?_ hserve
        rw [new, List.length_append, List.length_singleton]
        omega
    | run j text =>
      obtain ⟨report, host₁, more, hrun, hmore, rfl⟩ := serve_run_eq_some hserve
      obtain ⟨scope', m', hscope', hreport, rfl⟩ := run_eq_some hrun
      obtain ⟨names, hwrites⟩ := writes_of_report? (hvalid j scope' hscope') hreport
      obtain ⟨hlt, -⟩ := List.getElem?_eq_some_iff.1 hscope'
      have hj : j ≠ k := by omega
      obtain ⟨alone, own, ρ, halone, hreports, hend⟩ :=
        ih (hvalid.of_grows hwrites.grows) hlength hmore
      rw [textsFor_other hj, reportsOf_other hj]
      exact ⟨alone, own, ρ, halone, hreports, hend⟩

end Host

/-- **Sessions are independent.**  However the requests to all sessions are interleaved, the texts
of one session can be run alone, in the same order and from a new session on, on any machine `m'`.
The session then gets the same reports and ends with the same bindings. -/
theorem sessions_independent {m : Machine} {requests : List Request}
    {reports : List (Nat × Report)} {host : Host}
    (h : Host.Serves ⟨m, []⟩ requests reports host) {k : Nat} {scope : ScopeId}
    (hk : host.sessions[k]? = some scope) (m' : Machine) :
    (∃ alone own, Host.Serves ⟨m', []⟩ (.new :: (textsFor k requests).map (.run 0)) alone own) ∧
      ∀ alone own, Host.Serves ⟨m', []⟩ (.new :: (textsFor k requests).map (.run 0)) alone own →
        reportsOf 0 alone = reportsOf k reports ∧
          ∃ scope', own.sessions = [scope'] ∧
            own.machine.store.shown? scope' = host.machine.store.shown? scope := by
  obtain ⟨depth, hserve⟩ := h
  have hvalid : Host.Valid ⟨m, []⟩ := fun j scope hj ↦ by cases hj
  obtain ⟨alone, own, ρ, halone, hreports, hfollows⟩ :=
    Host.serve_alone m' hvalid (Nat.zero_le k) hserve hk
  have hserves : Host.Serves ⟨m', []⟩ (.new :: (textsFor k requests).map (.run 0)) alone own :=
    ⟨depth, halone⟩
  refine ⟨⟨alone, own, hserves⟩, fun alone₁ own₁ hserves₁ ↦ ?_⟩
  obtain ⟨rfl, rfl⟩ := hserves₁.unique hserves
  obtain ⟨scope', scope₁, hown, hscope₁, hmatch⟩ := hfollows.matched
  obtain rfl : scope₁ = scope := Option.some.inj (hscope₁.symm.trans hk)
  exact ⟨hreports, scope', hown, (hfollows.alike.shown?_eq hmatch).symm⟩

/-- A function of the first session sees the name `x` of its own session, bound after another
session bound it too. -/
theorem sessions_independent_closure :
    ∃ reports host,
      Host.Serves ⟨.initial, []⟩
          [.new, .run 0 "let f=fn()\x7bx\x7d", .new, .run 1 "let x=7", .run 0 "let x=5;f()"]
          reports host ∧
        host.sessions = [0, 1] ∧
        reportsOf 0 reports = [.ok ⟨.null, "null", .null⟩, .ok ⟨.integer, "5", .int 5⟩] ∧
        ∀ alone own,
          Host.Serves ⟨.initial, []⟩
              [.new, .run 0 "let f=fn()\x7bx\x7d", .run 0 "let x=5;f()"] alone own →
            reportsOf 0 alone = reportsOf 0 reports ∧
              ∃ scope, own.sessions = [scope] ∧
                own.machine.store.shown? scope = host.machine.store.shown? 0 := by
  have hserve : (Host.serve 8
      [.new, .run 0 "let f=fn()\x7bx\x7d", .new, .run 1 "let x=7", .run 0 "let x=5;f()"]
      ⟨.initial, []⟩).map (fun p ↦ (reportsOf 0 p.1, p.2.sessions)) =
      some ([.ok ⟨.null, "null", .null⟩, .ok ⟨.integer, "5", .int 5⟩], [0, 1]) := by cbv
  obtain ⟨⟨reports, host⟩, hhost, hseen⟩ := Option.map_eq_some_iff.1 hserve
  obtain ⟨hreports, hsessions⟩ := Prod.mk.inj hseen
  have hserves : Host.Serves ⟨.initial, []⟩ _ reports host := ⟨8, hhost⟩
  have hk : host.sessions[0]? = some 0 := by
    rw [hsessions]
    rfl
  exact ⟨reports, host, hserves, hsessions, hreports,
    (sessions_independent hserves hk .initial).2⟩

end MonkeyLang
