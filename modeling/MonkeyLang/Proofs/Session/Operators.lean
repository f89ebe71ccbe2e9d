import Mathlib
import MonkeyLang.Proofs.Parse.Kept
import MonkeyLang.Proofs.Session.Client

/-!
# Operators that cannot be blamed

Evaluation has an answer to every tree, also to trees that no text spells: a binary `!`, or an
operator before an operand that is only known between two.  The trees that are read from texts are
proper, even where errors were found, and so are the bodies of all functions that were ever made
from them.  So the errors for the other trees never occur in a session: `errors_of_texts`.

## Three branches

An evaluation has to say something about every node, and the syntax allows nodes that it can do
nothing sensible with.  Three of its answers are of this kind: an unknown operator before an
operand that is not a minus, an unknown operator between two integers, and a mismatch of types that
is blamed on `!`.  For proper nodes they are never given.  They are dead branches, and whoever
relies on them never being taken relies on what is proved here.

## Old code

A function that was made by an earlier program is evaluated when a later one calls it.  So it is
not enough that the program at hand is proper.  The invariant is about everything that a client
has: the functions in the store, those in its values, and the programs that it keeps
(`Client.Sound`).

Clients that bind values themselves are excluded.  A client can bind a function that no text
spells, with any body whatever, and evaluation would give the dead answers for it.
-/

set_option autoImplicit false

namespace MonkeyLang

/-- If the error is about an operator, then about one that can stand there in a text and that the
operands do not have. -/
def EvalError.Ordinary : EvalError → Prop
  | .unknownUnary op _ => op = .minus
  | .unknownBinary left op right => op ≠ .bang ∧ left ≠ .integer ∧ right ≠ .integer
  | .typeMismatch _ op _ => op ≠ .bang
  | _ => True

/-- The operator `!` does not stand between operands. -/
theorem Operator.ne_bang_of_mem_binary {op : Operator} (h : op ∈ Operator.binary) :
    op ≠ .bang := by
  rintro rfl
  exact absurd h (by decide)

/-- Errors that come from proper nodes are ordinary. -/
theorem EvalError.From.ordinary {e : EvalError} (h : e.From Node.Proper) : e.Ordinary := by
  cases e with
  | unknownUnary op operand =>
    obtain ⟨hbang, t, a, hproper⟩ := h
    exact hproper.fits.1.resolve_left hbang
  | unknownBinary left op right =>
    obtain ⟨hints, t, a, b, hproper⟩ := h
    have hne : op ≠ .bang := Operator.ne_bang_of_mem_binary hproper.fits.1
    exact ⟨hne, fun hleft ↦ hne (hints (.inl hleft)), fun hright ↦ hne (hints (.inr hright))⟩
  | typeMismatch left op right =>
    obtain ⟨t, a, b, hproper⟩ := h
    exact Operator.ne_bang_of_mem_binary hproper.fits.1
  | _ => trivial

/-- A client that binds no values itself has proper code only. -/
theorem Client.Reaches.sound_proper {actions : List ClientAction} {c : Client}
    (h : Client.start.Reaches actions c) (hset : ∀ k name v, ClientAction.set k name v ∉ actions) :
    c.Sound Node.Proper := by
  obtain ⟨depth, hacts⟩ := h
  refine Client.Sound.start.acts (fun action haction ↦ ?_) hacts
  cases action with
  | set k name v => exact absurd haction (hset k name v)
  | run k text | eval k text | keep text => exact (wellFormed_parse text).proper
  | newScope | enclose k | copy k | evalKept k j => trivial

/-- Where a run of a text fails, the evaluation of what was read of it does. -/
theorem eval_of_run_eq_stop {depth : Nat} {scope : ScopeId} {text : String} {m m' : Machine}
    {e : EvalError} (h : run depth scope text m = .stop (.eval e) m') :
    (parse text).program.eval depth scope m = .stop e m' := by
  rcases run_cases depth scope text m with ⟨errors, hrun⟩ | hrun
  · cases h.symm.trans hrun
  · rw [hrun] at h
    cases heval : (parse text).program.eval depth scope m with
    | done v n =>
      rw [heval] at h
      cases h
    | stop e' n =>
      rw [heval] at h
      cases h
      rfl
    | exhausted =>
      rw [heval] at h
      cases h

/-- **What is read from texts is proper, and errors are ordinary.**

* In the program that is read from a text, with errors or without, all nodes at any depth fit their
  tokens (`Node.Proper`).
* A client makes scopes, inside others or not, evaluates texts and programs that it keeps in them,
  and binds no values itself.  If one more text is evaluated or run and fails, or if one of its
  programs is evaluated once more and fails, then the error is an ordinary one, be it in the code
  itself or in a function from earlier code. -/
theorem errors_of_texts :
    (∀ text, ∀ x ∈ (parse text).program.nodes, x.Proper) ∧
      ∀ actions c, Client.start.Reaches actions c →
        (∀ k name v, ClientAction.set k name v ∉ actions) →
        ∀ scope ∈ c.handles, ∀ depth text e m',
          ((parse text).program.eval depth scope c.machine = .stop e m' ∨
            run depth scope text c.machine = .stop (.eval e) m' ∨
            ∃ r ∈ c.programs, r.eval depth scope c.machine = .stop e m') → e.Ordinary := by
  refine ⟨fun text ↦ (wellFormed_parse text).proper, ?_⟩
  intro actions c hreaches hset scope hscope depth text e m' hstop
  have hsound : c.Sound Node.Proper := hreaches.sound_proper hset
  have hscope' : scope < c.machine.store.size := hsound.handles scope hscope
  have hread : (parse text).program.eval depth scope c.machine = .stop e m' → e.Ordinary := by
    intro heval
    have hkeeps := (parse text).program.keeps_eval depth (wellFormed_parse text).proper
      hsound.store hscope'
    rw [heval] at hkeeps
    exact hkeeps.2.ordinary
  rcases hstop with heval | hrun | ⟨r, hr, heval⟩
  · exact hread heval
  · exact hread (eval_of_run_eq_stop hrun)
  · have hkeeps := r.keeps_eval depth (hsound.programs r hr) hsound.store hscope'
    rw [heval] at hkeeps
    exact hkeeps.2.ordinary

/-- The function comes from an earlier text, and the error is about the operator in it. -/
theorem errors_of_texts_negate :
    ∃ c m', Client.start.Reaches [.newScope, .run 0 "let f=fn(x)\x7b-x\x7d"] c ∧
      run 10 0 "f(true)" c.machine = .stop (.eval (.unknownUnary .minus .boolean)) m' ∧
      (EvalError.unknownUnary .minus .boolean).Ordinary := by
  have hacts : (Client.acts 10 [.newScope, .run 0 "let f=fn(x)\x7b-x\x7d"] Client.start).map
      (fun c ↦ (c.handles, (run 10 0 "f(true)" c.machine).Post (fun _ _ ↦ False)
        (fun e _ ↦ e = .eval (.unknownUnary .minus .boolean)) False)) = some ([0], True) := by
    cbv
    exact congrArg (fun holds ↦ some ([0], holds)) (eq_true rfl)
  obtain ⟨c, hc, hseen⟩ := Option.map_eq_some_iff.1 hacts
  obtain ⟨hhandles, herror⟩ := Prod.mk.inj hseen
  have hstop := of_eq_true herror
  obtain ⟨m', hrun⟩ : ∃ m', run 10 0 "f(true)" c.machine =
      .stop (.eval (.unknownUnary .minus .boolean)) m' := by
    cases hrun : run 10 0 "f(true)" c.machine with
    | done v m' =>
      rw [hrun] at hstop
      exact hstop.elim
    | stop e m' =>
      rw [hrun] at hstop
      exact ⟨m', congrArg (Outcome.stop · m') hstop⟩
    | exhausted =>
      rw [hrun] at hstop
      exact hstop.elim
  have hreaches : Client.start.Reaches _ c := ⟨10, hc⟩
  exact ⟨c, m', hreaches, hrun,
    errors_of_texts.2 _ c hreaches (by simp) 0 (by simp [hhandles]) 10 "f(true)" _ m'
      (.inr (.inl hrun))⟩

end MonkeyLang
