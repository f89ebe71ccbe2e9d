import MonkeyLang.Proofs.Session.Report

/-!
# Runs in a new scope

A program that is run in a new scope of its own comes to an end that depends on the program only,
not on the machine that it runs on.  It does not even depend on the tokens of the program, as
`sameOutcome_of_same` says for programs that differ in places.

`Value.LooksLike` is all that a host can tell about a value, and `SameOutcome` says of two runs
that a host cannot tell their ends apart: neither ends, both fail for the same reason, or both give
values that look alike.

## Why a new scope

In a scope with bindings a program may depend on all of them, and on what the functions there refer
to.  In a new one it starts from nothing, and whatever else the machine has it cannot reach.  In
the language of matchings: no scopes are matched at the start but the two new ones, and then any
two stores are alike (`Store.Alike.of_no_match`).

## Never to end

A run that never ends has no result, and still two such runs are counted as the same here.  With
`Settles`, to be exhausted with every bound is an outcome like others, and so a theorem about
`SameOutcome` also says that one run ends if and only if the other one does.  The reasons for an
early stop may be compared by a relation, since errors of reading name places and these may differ.

`LooksLike` is weaker than being alike.  It forgets the scopes of functions, and so nothing can be
concluded from it about what happens when the values are used; it is a statement for the end, not
one to go on from.
-/

set_option autoImplicit false

namespace MonkeyLang

/-! ## Values that look alike -/

/-- Values that a host cannot tell apart. -/
structure Value.LooksLike (v w : Value) : Prop where
  type : w.type = v.type
  display : w.display = v.display
  truthy : w.truthy = v.truthy
  tree : w.tree = v.tree

namespace Value.LooksLike

theorem symm {v w : Value} (h : v.LooksLike w) : w.LooksLike v :=
  ⟨h.type.symm, h.display.symm, h.truthy.symm, h.tree.symm⟩

theorem trans {u v w : Value} (h : u.LooksLike v) (h' : v.LooksLike w) : u.LooksLike w :=
  ⟨h'.type.trans h.type, h'.display.trans h.display, h'.truthy.trans h.truthy,
    h'.tree.trans h.tree⟩

end Value.LooksLike

theorem Value.Alike.looksLike {ρ : ScopeId → ScopeId → Prop} {v w : Value} (h : v.Alike ρ w) :
    v.LooksLike w :=
  ⟨h.type_eq, h.display_eq, h.truthy_eq, h.tree_eq⟩

/-! ## The same end

An equivalence between ends, as long as the reasons are compared by equality. -/

/-- Two ends that a host cannot tell apart, up to the relation `reasons` between the reasons for an
early stop. -/
def Outcome.LooksLike {ε : Type} (reasons : ε → ε → Prop) :
    Outcome ε Machine Value → Outcome ε Machine Value → Prop :=
  Outcome.Together (fun v _ w _ ↦ v.LooksLike w) fun e _ e' _ ↦ reasons e e'

namespace Outcome.LooksLike

variable {ε : Type}

theorem symm : ∀ {o o' : Outcome ε Machine Value}, o.LooksLike Eq o' → o'.LooksLike Eq o
  | .done _ _, .done _ _, h => Value.LooksLike.symm h
  | .stop _ _, .stop _ _, h => Eq.symm h
  | .exhausted, .exhausted, _ => trivial

theorem trans : ∀ {o o₁ o' : Outcome ε Machine Value}, o.LooksLike Eq o₁ → o₁.LooksLike Eq o' →
    o.LooksLike Eq o'
  | .done _ _, .done _ _, .done _ _, h, h' => Value.LooksLike.trans h h'
  | .stop _ _, .stop _ _, .stop _ _, h, h' => Eq.trans h h'
  | .exhausted, .exhausted, .exhausted, _, _ => trivial

end Outcome.LooksLike

/-- With large enough bounds, the two families come to ends that a host cannot tell apart, one from
the machine `m` on and the other from `m'` on.  Never to end is such an end. -/
def SameOutcome {ε : Type} (reasons : ε → ε → Prop) (family : Nat → Action ε Machine Value)
    (m : Machine) (family' : Nat → Action ε Machine Value) (m' : Machine) : Prop :=
  ∃ o o', Settles family m o ∧ Settles family' m' o' ∧ o.LooksLike reasons o'

namespace SameOutcome

variable {ε : Type} {reasons : ε → ε → Prop}
variable {family family' family'' : Nat → Action ε Machine Value}
variable {m m' m'' : Machine}

/-- Families that go together with each bound come to the same end. -/
theorem of_looksLike (hgrow : ∀ depth, (family depth).Below (family (depth + 1)))
    (hgrow' : ∀ depth, (family' depth).Below (family' (depth + 1)))
    (h : ∀ depth, (family depth m).LooksLike reasons (family' depth m')) :
    SameOutcome reasons family m family' m' := by
  obtain ⟨o, ho⟩ := Settles.exists_of_grow hgrow m
  obtain ⟨o', ho'⟩ := Settles.exists_of_grow hgrow' m'
  exact ⟨o, o', ho, ho', ho.together ho' h⟩

theorem symm (h : SameOutcome Eq family m family' m') : SameOutcome Eq family' m' family m := by
  obtain ⟨o, o', ho, ho', hlike⟩ := h
  exact ⟨o', o, ho', ho, hlike.symm⟩

/-- Two runs that end like a third one end alike. -/
theorem trans (h : SameOutcome Eq family m family' m')
    (h' : SameOutcome Eq family' m' family'' m'') : SameOutcome Eq family m family'' m'' := by
  obtain ⟨o, o₁, ho, ho₁, hlike⟩ := h
  obtain ⟨o₂, o', ho₂, ho', hlike'⟩ := h'
  obtain rfl : o₁ = o₂ := ho₁.unique ho₂
  exact ⟨o, o', ho, ho', hlike.trans hlike'⟩

end SameOutcome

/-! ## New scopes -/

/-- Run a program in a new scope. -/
def Program.evalFresh (depth : Nat) (p : Program) : Action EvalError Machine Value := fun m ↦
  p.eval depth (m.newScope none).1 (m.newScope none).2

/-- Read a text and run it in a new scope. -/
def runFresh (depth : Nat) (text : String) : Action RunError Machine Value := fun m ↦
  run depth (m.newScope none).1 text (m.newScope none).2

/-- A larger bound changes nothing about a run in a new scope. -/
theorem Program.below_evalFresh (depth : Nat) (p : Program) :
    (p.evalFresh depth).Below (p.evalFresh (depth + 1)) :=
  fun m ↦ p.below_eval depth (m.newScope none).1 (m.newScope none).2

/-- Statements whose ends look alike make programs whose ends do. -/
theorem Outcome.LooksLike.unwound {o o' : Outcome Signal Machine Value}
    (h : o.Together (fun v _ w _ ↦ ∃ ρ, v.Alike ρ w) (fun e _ e' _ ↦ ∃ ρ, e.Alike ρ e') o') :
    o.unwound.LooksLike Eq o'.unwound := by
  refine Outcome.Together.unwound (h.imp (fun v _ w _ ⟨ρ, hvw⟩ ↦ hvw.looksLike) ?_)
  rintro (v | e) n (w | e') n' ⟨ρ, hsignal⟩
  · exact Value.Alike.looksLike hsignal
  · exact hsignal.elim
  · exact hsignal.elim
  · exact Eq.symm hsignal

/-- Where no scopes are matched, all stores are alike. -/
theorem Store.Alike.of_no_match (s t : Store) : s.Alike (fun _ _ ↦ False) t :=
  ⟨fun h ↦ h.elim, fun h ↦ h.elim, fun h ↦ h.elim⟩

/-! ## Programs in new scopes -/

/-- Statements end in the same way in any two new scopes, and with any tokens. -/
theorem Eval.looksLike_newScope (depth : Nat) {change : Token → Token} {ss ss' : List Stmt}
    (hss : mapTokensStmts change ss = ss') {s t : Store} {m m' : Machine}
    (hm : m.store = s.add ⟨[], none⟩) (hm' : m'.store = t.add ⟨[], none⟩) (unit unit' : Nat) :
    (statements depth ⟨s.size, unit⟩ .null ss m).unwound.LooksLike Eq
      (statements depth ⟨t.size, unit'⟩ .null ss' m').unwound := by
  subst hss
  -- the two new scopes are matched, and nothing else
  have halike : m.store.Alike (withPair (fun _ _ ↦ False) s.size t.size) m'.store := by
    rw [hm, hm']
    exact (Store.Alike.of_no_match s t).add ⟨.nil, .none⟩
  have hframe : withPair (fun _ _ ↦ False) s.size t.size (Frame.mk s.size unit).scope
      (Frame.mk t.size unit').scope := .inr ⟨rfl, rfl⟩
  refine .unwound ((mirrors_statements depth hframe change alike_null ss m m' halike).imp ?_ ?_)
  · rintro v n w n' ⟨ρ, -, hvw⟩
    exact ⟨ρ, hvw⟩
  · rintro e n e' n' ⟨ρ, -, hsignal⟩
    exact ⟨ρ, hsignal⟩

/-- Changing the tokens of a program changes nothing about its run. -/
theorem sameOutcome_mapTokens (p : Program) (change : Token → Token) (m m' : Machine) :
    SameOutcome Eq (fun depth ↦ p.evalFresh depth) m
      (fun depth ↦ (p.mapTokens change).evalFresh depth) m' := by
  refine .of_looksLike (fun depth ↦ p.below_evalFresh depth)
    (fun depth ↦ (p.mapTokens change).below_evalFresh depth) fun depth ↦ ?_
  rw [Program.evalFresh, Program.evalFresh, Program.eval_eq_unwound, Program.eval_eq_unwound]
  exact Eval.looksLike_newScope depth rfl rfl rfl _ _

/-- **Programs that differ in places only run in the same way**, each in a new scope of any
machine. -/
theorem sameOutcome_of_same {p q : Program} (h : p.same q = true) (m m' : Machine) :
    SameOutcome Eq (fun depth ↦ p.evalFresh depth) m (fun depth ↦ q.evalFresh depth) m' := by
  have hp := sameOutcome_mapTokens p Token.forget m m
  rw [(Program.same_iff p q).1 h] at hp
  exact hp.trans (sameOutcome_mapTokens q Token.forget m' m).symm

end MonkeyLang
