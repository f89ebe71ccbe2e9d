import MonkeyLang.Proofs.Eval.Detach
import MonkeyLang.Proofs.Session.Fresh

/-!
# Programs and calls

A program is a function body with nothing around it.  A `return` outside all functions ends the
program as it ends a call, and what the program binds lands in a new scope in both cases.  The
scope of the call stands inside another one, which stays without bindings; by
`MonkeyLang.Eval.Blind` this makes no difference.

`evalFresh_asCall` puts a program and the call side by side.

## Two differences

The call makes one scope more than the program, so that all numbers of scopes are shifted by one,
and its scope is not the outermost one.  They are dealt with one after the other.  First the call
is compared with the same statements run in a scope that was detached from the empty one around it:
same numbers, no outer scope.  Then that run is compared with the program, which starts in an
outermost scope with another number.

The call takes four levels of depth more than the statements: for the sequence of one statement,
the statement, the expression and the call.  With bounds that differ by four the two runs end
together, also where both run out, and so they have the same outcome for large enough bounds.

What is said holds on any two machines.  The program need not be one that was read from a text, and
the four tokens of the call can be any tokens.
-/

set_option autoImplicit false

namespace MonkeyLang

/-! ## Statements in two scopes -/

theorem Signal.Alike.refl (signal : Signal) : signal.Alike Eq signal := by
  cases signal with
  | returned v => exact Value.Alike.refl v
  | failed e => exact rfl

namespace Eval

/-- Statements end in the same way with and without an outer scope that binds nothing. -/
theorem looksLike_detach (depth : Nat) {base id : ScopeId} {frame : Frame}
    (hframe : frame.scope ≠ base) (statements : List Stmt) {m : Machine}
    (hm : m.store.Nested base id) :
    (Eval.statements depth frame .null statements (m.detach id)).unwound.LooksLike Eq
      (Eval.statements depth frame .null statements m).unwound := by
  refine .symm (.unwound ((blind_statements depth hframe .null statements m hm).imp ?_ ?_))
  · rintro v n _ n' ⟨rfl, -⟩
    exact ⟨Eq, .refl v⟩
  · rintro e n _ n' ⟨rfl, -⟩
    exact ⟨Eq, .refl e⟩

/-- A program that is a call ends as the statements of the function do. -/
theorem unwound_boundary (run : Eval Value) (m : Machine) :
    (boundary run m).unwound = (run m).unwound := by
  rw [boundary]
  cases run m with
  | done v n => rfl
  | stop signal n => cases signal <;> rfl
  | exhausted => rfl

end Eval

/-! ## Scopes without bindings -/

theorem Dict.eq_nil_of_get? {κ ν : Type} [DecidableEq κ] {entries : List (κ × ν)}
    (h : ∀ key, get? entries key = none) : entries = [] := by
  cases entries with
  | nil => rfl
  | cons p rest =>
    have hp := h p.1
    rw [get?, if_pos rfl] at hp
    cases hp

/-- Where no names are written, a scope without bindings stays one.  The list of names that are
written is a bound from above, and here it is empty. -/
theorem Store.Writes.scope?_of_empty {scope : ScopeId} {s t : Store} (h : s.Writes scope [] t)
    {outer : Option ScopeId} (hs : s.scope? scope = some ⟨[], outer⟩) :
    t.scope? scope = some ⟨[], outer⟩ := by
  have houter := h.outer
  rw [hs, Option.map_some, Option.map_eq_some_iff] at houter
  obtain ⟨⟨bindings, outer'⟩, ht, rfl⟩ := houter
  have hnone : ∀ name, Dict.get? bindings name = none := by
    intro name
    by_contra hne
    refine List.not_mem_nil (h.changed name ?_)
    rw [binding?, binding?, hs, ht]
    exact hne
  rw [ht, Dict.eq_nil_of_get? hnone]

/-! ## A program as a function body -/

namespace Program

/-- The program that does nothing but call a function without parameters, whose body are the
statements of `p`.  The tokens are those of the statement, the call, the function literal and the
block.  This is how one would write it: `fn() { … }()`. -/
def asCall (p : Program) (statement call literal brace : Token) : Program :=
  ⟨[.exprStmt statement (.call call (.function literal [] ⟨brace, p.statements⟩) [])]⟩

variable (p : Program) (statement call literal brace : Token)

/-- The call adds a scope and runs the statements there. -/
theorem evalSignals_asCall (depth : Nat) (scope : ScopeId) (m : Machine) :
    (p.asCall statement call literal brace).evalSignals (depth + 4) scope m =
      Eval.boundary (Eval.statements depth ⟨m.store.size, m.units⟩ .null p.statements)
        { m with store := m.store.add ⟨[], some scope⟩, units := m.units + 1 } := by
  show (Eval.expression (depth + 2) ⟨scope, m.units⟩
    (.call call (.function literal [] ⟨brace, p.statements⟩) []) >>= pure) _ = _
  rw [bind_pure]
  rfl

/-- Bound by bound, the call ends as the program does.  The call takes a few units more to get to
the body.  What is different there is the number of the scope, and that the scope stands inside
another one. -/
theorem looksLike_asCall (depth : Nat) (m m' : Machine) :
    (p.evalFresh depth m).LooksLike Eq
      ((p.asCall statement call literal brace).evalFresh (depth + 4) m') := by
  rw [evalFresh, evalFresh, eval_eq_unwound, eval_eq_unwound, evalSignals_asCall,
    Eval.unwound_boundary]
  have hbase : (m'.newScope none).2.store.scope? m'.store.size = some ⟨[], none⟩ :=
    Store.scope?_add_size m'.store _
  have hsize : (m'.newScope none).2.store.size = m'.store.size + 1 := Store.size_add ..
  have hframe : (m'.newScope none).2.store.size ≠ m'.store.size := by omega
  -- the scope of the call, first without and then with the scope around it
  refine .trans ?_ (Eval.looksLike_detach depth hframe p.statements (.of_add hbase []))
  exact Eval.looksLike_newScope depth (mapTokensStmts_id p.statements) rfl
    (Store.detach_add_size _ _) _ _

/-- The call binds nothing in the scope that it stands in. -/
theorem scope?_evalFresh_asCall (depth : Nat) {m n : Machine}
    (h : ((p.asCall statement call literal brace).evalFresh depth m).state? = some n) :
    n.store.scope? m.store.size = some ⟨[], none⟩ := by
  have hscope : (m.newScope none).2.store.scope? m.store.size = some ⟨[], none⟩ :=
    Store.scope?_add_size m.store _
  have hwrites : (m.newScope none).2.store.Writes m.store.size [] n.store :=
    ((p.asCall statement call literal brace).within_eval depth
      (Store.lt_size_of_scope? hscope)).of_state? h
  exact hwrites.scope?_of_empty hscope

end Program

/-- **The boundary of a program is that of a call.**  Run a program in a new scope, and in another
one, possibly on another machine, the program that calls a function with the same statements.  They
come to the same end, and the call leaves its new scope without bindings. -/
theorem evalFresh_asCall (p : Program) (statement call literal brace : Token) (m m' : Machine) :
    SameOutcome Eq (fun depth ↦ p.evalFresh depth) m
        (fun depth ↦ (p.asCall statement call literal brace).evalFresh depth) m' ∧
      ∀ depth n, ((p.asCall statement call literal brace).evalFresh depth m').state? = some n →
        n.store.scope? m'.store.size = some ⟨[], none⟩ := by
  refine ⟨?_, fun depth n ↦ p.scope?_evalFresh_asCall statement call literal brace depth⟩
  have hshifted : SameOutcome Eq (fun depth ↦ p.evalFresh depth) m
      (fun depth ↦ (p.asCall statement call literal brace).evalFresh (depth + 4)) m' :=
    .of_looksLike (fun depth ↦ p.below_evalFresh depth)
      (fun depth ↦ (p.asCall statement call literal brace).below_evalFresh (depth + 4))
      fun depth ↦ p.looksLike_asCall statement call literal brace depth m m'
  obtain ⟨o, o', ho, ho', hlike⟩ := hshifted
  exact ⟨o, o', ho, .succ (.succ (.succ (.succ ho'))), hlike⟩

end MonkeyLang
