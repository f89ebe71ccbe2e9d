import MonkeyLang.Proofs.Parse.Termination
import MonkeyLang.Proofs.Parse.Tier

/-!
# No reader fails without a word

A reader gives up without a reason of its own, so whoever reads the errors has to find the reason
among them.  `failures_recorded` says that it is there: a call that gives up has added an error,
and the errors before it stay where they are.

## The tables

Three readers look a token up in a table and have nothing to say if it is not there.  `climb` would
leave the expression as it is; but whatever binds tighter than some level has a way to continue an
expression.  `operand` looks up the operator of a sign, and `continued` that of an operation.  For
a sign the table has one.  For an operation it depends on the call: `Call.Fits` says that a
continuation is read in the way in which its token continues an expression.  `fits_plan` shows that
a reader makes only calls that fit, and `Call.fits_visits` that all calls of a run do.

## Which calls

The statement is about the calls that are made while a text is read, and not about all calls that
could be written down.  A call that does not fit gives up in silence, and there is an example of
one below.  That such calls are never made can be seen from the plans of the readers, without
running them: whatever was read so far, the next call fits.

For a call that fits, what is said holds in every state, reached or not.  So it says nothing about
texts any more, and follows from what is known of readers in general: that they move forward, and
that they come to an end.
-/

set_option autoImplicit false

namespace MonkeyLang
namespace Parser

/-! ## The calls that a plan makes -/

/-- Whatever its actions and calls give, a plan makes only calls with the property `P`.  A property
of calls that all plans pass on is a property of all visits in a run. -/
def Plan.CallsOnly {α : Type} (P : Call → Prop) : Plan α → Prop
  | .give _ => True
  | .act _ next => ∀ v, (next v).CallsOnly P
  | .call c next => P c ∧ ∀ v, (next v).CallsOnly P
  | .attempt c next => P c ∧ ∀ v, (next v).CallsOnly P

/-- Only a call that is done is followed by others. -/
theorem exists_done_of_mem_whenDone {α β : Type} {o : Outcome Unit State α}
    {next : α → State → List β} {x : β} (h : x ∈ whenDone o next) :
    ∃ v t, o = .done v t ∧ x ∈ next v t := by
  cases o with
  | done v t => exact ⟨v, t, rfl, h⟩
  | stop e t => exact absurd h List.not_mem_nil
  | exhausted => exact absurd h List.not_mem_nil

namespace Plan.CallsOnly

variable {α β : Type} {P : Call → Prop}

theorem pure (value : α) : CallsOnly P (pure value : Plan α) := trivial

theorem doing (action : Parser α) : CallsOnly P (doing action) := fun _ ↦ trivial

theorem calling {c : Call} (h : P c) : CallsOnly P (calling c) := ⟨h, fun _ ↦ trivial⟩

theorem attempting {c : Call} (h : P c) : CallsOnly P (attempting c) := ⟨h, fun _ ↦ trivial⟩

theorem bind {p : Plan α} {f : α → Plan β} (h : p.CallsOnly P) (hf : ∀ v, (f v).CallsOnly P) :
    CallsOnly P (p >>= f) := by
  induction p with
  | give value => exact hf value
  | act action next ih => exact fun v ↦ ih v (h v)
  | call c next ih => exact ⟨h.1, fun v ↦ ih v (h.2 v)⟩
  | attempt c next ih => exact ⟨h.1, fun v ↦ ih v (h.2 v)⟩

theorem ite {c : Prop} [Decidable c] {p q : Plan α} (h : p.CallsOnly P) (h' : q.CallsOnly P) :
    CallsOnly P (if c then p else q) := by
  split
  · exact h
  · exact h'

/-- What holds of the calls that a plan makes, and of all that is called inside them, holds of the
visits of the plan. -/
theorem of_mem_visits {enter : (c : Call) → Parser c.Result} {inside : Call → State → List Visit}
    (hinside : ∀ c, P c → ∀ s, ∀ v ∈ inside c s, P v.call) {p : Plan α} (h : p.CallsOnly P)
    (s : State) {v : Visit} (hv : v ∈ p.visits enter inside s) : P v.call := by
  induction p generalizing s with
  | give value => exact absurd hv List.not_mem_nil
  | act action next ih =>
    obtain ⟨w, t, -, hv⟩ := exists_done_of_mem_whenDone hv
    exact ih w (h w) t hv
  | call c next ih =>
    rcases List.mem_append.1 hv with hv | hv
    · exact hinside c h.1 s v hv
    · obtain ⟨w, t, -, hv⟩ := exists_done_of_mem_whenDone hv
      exact ih w (h.2 w) t hv
  | attempt c next ih =>
    rcases List.mem_append.1 hv with hv | hv
    · exact hinside c h.1 s v hv
    · obtain ⟨w, t, -, hv⟩ := exists_done_of_mem_whenDone hv
      exact ih w (h.2 w) t hv

end Plan.CallsOnly

/-- If the plans of calls with the property `P` make only such calls, then a run that starts with
one of them consists of nothing else. -/
theorem Call.visits_of_plans {P : Call → Prop} (hplan : ∀ c : Call, P c → c.plan.CallsOnly P)
    (depth : Nat) (c : Call) (h : P c) (s : State) : ∀ v ∈ c.visits depth s, P v.call := by
  induction depth generalizing c s with
  | zero =>
    intro v hv
    obtain rfl := List.mem_singleton.1 hv
    exact h
  | succ depth ih =>
    intro v hv
    rcases List.mem_cons.1 hv with rfl | hv
    · exact h
    · exact (hplan c h).of_mem_visits ih s hv

/-! ## Calls that fit

Only the plan of `climb` makes a call for which something is to be checked, and it has just found
the token in the table. -/

section Plans

open Plan

theorem fits_parameters : Plan.parameters.CallsOnly Call.Fits := by
  refine (CallsOnly.doing peek).bind fun t ↦ .ite ?_ ?_
  · exact (CallsOnly.doing take).bind fun _ ↦ .pure _
  · exact (CallsOnly.doing identifier).bind fun _ ↦
      (CallsOnly.calling (c := .moreParameters) trivial).bind fun _ ↦ .pure _

theorem fits_operand : Call.operand.plan.CallsOnly Call.Fits := by
  have hexpression : ∀ level, CallsOnly Call.Fits (calling (.expression level)) :=
    fun _ ↦ .calling trivial
  rw [Call.plan]
  refine (CallsOnly.doing take).bind fun t ↦ ?_
  split
  · exact .pure _
  · split
    · exact .pure _
    · exact .doing _
  · exact .pure _
  · exact .pure _
  · exact .pure _
  · split
    · exact .doing _
    · exact (hexpression _).bind fun _ ↦ .pure _
  · split
    · exact .doing _
    · exact (hexpression _).bind fun _ ↦ .pure _
  · exact (hexpression _).bind fun _ ↦ (CallsOnly.doing _).bind fun _ ↦ .pure _
  · exact CallsOnly.calling (c := .conditional t) trivial
  · exact (CallsOnly.doing _).bind fun _ ↦ fits_parameters.bind fun _ ↦
      (CallsOnly.doing _).bind fun brace ↦
        (CallsOnly.calling (c := .block brace) trivial).bind fun _ ↦ .pure _
  · exact (CallsOnly.calling (c := .expressions _) trivial).bind fun _ ↦ .pure _
  · exact (CallsOnly.calling (c := .pairs) trivial).bind fun _ ↦ .pure _
  · exact .doing _

/-- A reader makes only calls that fit: `climb` alone calls for a continuation, and it takes the way
from the table. -/
theorem fits_plan (c : Call) : c.plan.CallsOnly Call.Fits := by
  have hpeek : CallsOnly Call.Fits (doing peek) := .doing peek
  have htake : CallsOnly Call.Fits (doing take) := .doing take
  have hexpect : ∀ expected, CallsOnly Call.Fits (doing (expect expected)) := fun _ ↦ .doing _
  have hskip : ∀ wanted, CallsOnly Call.Fits (doing (skipIf wanted)) := fun _ ↦ .doing _
  have hexpression : ∀ level, CallsOnly Call.Fits (calling (.expression level)) :=
    fun _ ↦ .calling trivial
  have hblock : ∀ brace, CallsOnly Call.Fits (calling (.block brace)) := fun _ ↦ .calling trivial
  cases c with
  | moreParameters =>
    refine hpeek.bind fun t ↦ .ite ?_ ?_
    · exact htake.bind fun _ ↦ (CallsOnly.doing identifier).bind fun _ ↦
        (CallsOnly.calling (c := .moreParameters) trivial).bind fun _ ↦ .pure _
    · exact (hexpect _).bind fun _ ↦ .pure _
  | expression level =>
    refine (CallsOnly.calling (c := .operand) trivial).bind fun left ↦ ?_
    exact CallsOnly.calling (c := .climb level left) trivial
  | climb level left =>
    refine hpeek.bind fun t ↦ .ite ?_ (.pure left)
    split
    · exact .pure left
    · rename_i way hway
      exact htake.bind fun _ ↦
        (CallsOnly.calling (c := .continued way t left) hway).bind fun longer ↦
          CallsOnly.calling (c := .climb level longer) trivial
  | continued way t left =>
    cases way with
    | operation =>
      rw [Call.plan]
      split
      · exact .doing _
      · exact (hexpression _).bind fun _ ↦ .pure _
    | call => exact (CallsOnly.calling (c := .expressions _) trivial).bind fun _ ↦ .pure _
    | index => exact (hexpression _).bind fun _ ↦ (hexpect _).bind fun _ ↦ .pure _
  | operand => exact fits_operand
  | conditional t =>
    refine (hexpect _).bind fun _ ↦ (hexpression _).bind fun _ ↦ (hexpect _).bind fun _ ↦
      (hexpect _).bind fun brace ↦ (hblock brace).bind fun _ ↦ ?_
    refine hpeek.bind fun next ↦ .ite ?_ (.pure _)
    -- the way is looked up in the table, and so the call fits
    exact htake.bind fun _ ↦ (hexpect _).bind fun brace ↦ (hblock brace).bind fun _ ↦ .pure _
  | expressions close =>
    refine hpeek.bind fun t ↦ .ite (htake.bind fun _ ↦ .pure _) ?_
    exact (hexpression _).bind fun _ ↦
      (CallsOnly.calling (c := .moreExpressions close) trivial).bind fun _ ↦ .pure _
  | moreExpressions close =>
    refine hpeek.bind fun t ↦ .ite ?_ ((hexpect _).bind fun _ ↦ .pure _)
    exact htake.bind fun _ ↦ (hexpression _).bind fun _ ↦
      (CallsOnly.calling (c := .moreExpressions close) trivial).bind fun _ ↦ .pure _
  | pairs =>
    have hpairs : CallsOnly Call.Fits (calling .pairs) := .calling trivial
    refine hpeek.bind fun t ↦ .ite (htake.bind fun _ ↦ .pure _) ?_
    refine (hexpression _).bind fun _ ↦ (hexpect _).bind fun _ ↦ (hexpression _).bind fun _ ↦ ?_
    refine hpeek.bind fun next ↦ .ite ?_ ((hexpect _).bind fun _ ↦ ?_)
    · exact hpairs.bind fun _ ↦ .pure _
    · exact hpairs.bind fun _ ↦ .pure _
  | statement =>
    refine hpeek.bind fun t ↦ ?_
    split
    · exact htake.bind fun _ ↦ (CallsOnly.doing identifier).bind fun _ ↦
        (hexpect _).bind fun _ ↦ (hexpression _).bind fun _ ↦ (hskip _).bind fun _ ↦ .pure _
    · refine htake.bind fun _ ↦ hpeek.bind fun next ↦ .ite ?_ ?_
      · exact (hskip _).bind fun _ ↦ .pure _
      · exact (hexpression _).bind fun _ ↦ (hskip _).bind fun _ ↦ .pure _
    · exact (hexpression _).bind fun _ ↦ (hskip _).bind fun _ ↦ .pure _
  | statements inBlock =>
    refine hpeek.bind fun t ↦ .ite (.pure _) ?_
    exact (CallsOnly.attempting (c := .statement) trivial).bind fun _ ↦
      (CallsOnly.calling (c := .statements inBlock) trivial).bind fun _ ↦ .pure _
  | block brace =>
    exact (CallsOnly.calling (c := .statements true) trivial).bind fun _ ↦
      htake.bind fun t ↦ .ite (.doing _) (.pure _)

end Plans

/-- All calls of a run fit if the first one does. -/
theorem Call.fits_visits (depth : Nat) {c : Call} (h : c.Fits) (s : State) :
    ∀ v ∈ c.visits depth s, v.call.Fits :=
  visits_of_plans (fun c _ ↦ fits_plan c) depth c h s

/-- What is looked up on behalf of the call is in the tables. -/
structure Visit.Covered (v : Visit) : Prop where
  fits : v.call.Fits
  /-- A token that binds tighter than the level has a way to continue the expression. -/
  continuation : ∀ level left, v.call = .climb level left →
    level < Precedence.ofKind v.state.stream.head.kind →
      continuation? v.state.stream.head.kind ≠ none
  /-- What is read as an operation has an operator. -/
  operation : ∀ t left, v.call = .continued .operation t left → Operator.ofKind? t.kind ≠ none
  /-- What is read as a sign has an operator. -/
  sign : v.call = .operand →
    v.state.stream.head.kind = .symbol .bang ∨ v.state.stream.head.kind = .symbol .minus →
      Operator.ofKind? v.state.stream.head.kind ≠ none

/-- A call that fits finds what it looks up. -/
theorem Call.Fits.covered {v : Visit} (h : v.call.Fits) : v.Covered where
  fits := h
  continuation _ _ _ hlevel := Grammar.continuation?_ne_none hlevel
  operation t left hcall := by
    rw [hcall] at h
    obtain ⟨op, hop⟩ := ofKind?_of_operation h
    rw [hop]
    exact Option.some_ne_none op
  sign _ hkind := by
    rcases hkind with hkind | hkind <;> rw [hkind] <;> exact Option.some_ne_none _

/-! ## Failures -/

/-- Started in the state `s`, a reader with a bound on its depth leaves the errors before where they
are, and does not give up without adding one. -/
structure Candid {α : Type} (read : Nat → Parser α) (s : State) : Prop where
  /-- If it gives a value, the errors before are the first ones. -/
  keeps : ∀ depth v t, read depth s = .done v t → s.errors <+: t.errors
  /-- If it gives up, the errors before are the first ones, and there are more. -/
  adds : ∀ depth t, read depth s = .stop () t →
    s.errors <+: t.errors ∧ s.errors.length < t.errors.length
  /-- With eight units of depth for each token, and five more, it gives a value unless errors were
  added. -/
  gives : ∀ depth, 8 * s.stream.pending.length + 5 ≤ depth →
    (∃ v t, read depth s = .done v t) ∨
      ∃ t, read depth s = .stop () t ∧ s.errors.length < t.errors.length

/-- A reader that moves forward and comes to an end does not fail without a word. -/
theorem Candid.of_moves {α : Type} {read : Nat → Parser α} {s : State}
    (hmoves : ∀ depth, Moves 0 (read depth))
    (hends : ∀ depth, 8 * s.stream.pending.length + 5 ≤ depth → read depth s ≠ .exhausted) :
    Candid read s := by
  have hadds : ∀ depth t, read depth s = .stop () t →
      s.errors <+: t.errors ∧ s.errors.length < t.errors.length := by
    intro depth t hread
    have hpost := hmoves depth s
    rw [hread] at hpost
    exact ⟨hpost.1.errors, hpost.2⟩
  refine ⟨fun depth v t hread ↦ ?_, hadds, fun depth hdepth ↦ ?_⟩
  · have hpost := hmoves depth s
    rw [hread] at hpost
    exact hpost.errors
  · cases hread : read depth s with
    | done v t => exact .inl ⟨v, t, rfl⟩
    | stop e t => exact .inr ⟨t, rfl, (hadds depth t hread).2⟩
    | exhausted => exact absurd hread (hends depth hdepth)

theorem Call.Fits.candid {c : Call} (h : c.Fits) (s : State) : Candid c.read s :=
  .of_moves h.moves fun _ hdepth ↦ c.endsWithin hdepth s (Nat.le_refl _)

/-- A call that does not fit can fail without a word: a comma has no operator. -/
example (p : Position) (left : Expr) (s : State) :
    (Call.continued .operation ⟨.symbol .comma, p⟩ left).read 1 s = .stop () s := rfl

/-- The readers of parameters are steps of a plan and no calls, so they are dealt with on their
own. -/
theorem candid_parameters (s : State) : Candid parameters s :=
  .of_moves moves_parameters fun _ hdepth ↦
    endsWithin_parameters (by omega) s (Nat.le_refl _)

end Parser

/-- **No failure goes unrecorded.**  Take any call that is made to read a text, with the state in
which it starts: of a block, a statement, an expression at any level, an operand by the rule of its
first token, a continuation by the rule of its token, or a list.  All that is looked up on its
behalf is in the tables.  The errors found before stay the first ones; if the call gives up, it has
added one; and if it has added none, it gives a value.  The same is true of the parameters of a
function, and of every call that fits, in any state at all. -/
theorem failures_recorded (text : String) (depth : Nat) :
    (∀ v ∈ visitsOf text depth, v.Covered ∧ Parser.Candid v.call.read v.state) ∧
      ∀ s, Parser.Candid Parser.parameters s ∧
        ∀ c : Parser.Call, c.Fits → Parser.Candid c.read s := by
  refine ⟨fun v hv ↦ ?_, fun s ↦ ⟨Parser.candid_parameters s, fun c hc ↦ hc.candid s⟩⟩
  have hfits : v.call.Fits :=
    Parser.Call.fits_visits depth (c := .statements false) trivial _ v hv
  exact ⟨hfits.covered, hfits.candid v.state⟩

/-- The operation in `1 +` finds no right side, and says so. -/
theorem failures_recorded_missing_operand :
    ∃ v ∈ visitsOf "1 +" 16, v.call.reader = .continued ∧ ∃ t,
      v.call.read 16 v.state = .stop () t ∧ v.state.errors.length < t.errors.length := by
  have hany : (visitsOf "1 +" 16).any (fun v ↦ v.call.reader == .continued &&
      (v.call.read 16 v.state).casesOn (fun _ _ ↦ false) (fun _ _ ↦ true) false) = true := by
    decide +kernel
  obtain ⟨v, hv, hstops⟩ := List.any_eq_true.1 hany
  obtain ⟨hreader, hstops⟩ := Bool.and_eq_true_iff.1 hstops
  refine ⟨v, hv, beq_iff_eq.1 hreader, ?_⟩
  cases hread : v.call.read 16 v.state with
  | stop e t =>
    exact ⟨t, rfl, (((failures_recorded "1 +" 16).1 v hv).2.adds 16 t hread).2⟩
  | done w t =>
    rw [hread] at hstops
    exact absurd hstops Bool.false_ne_true
  | exhausted =>
    rw [hread] at hstops
    exact absurd hstops Bool.false_ne_true

end MonkeyLang
