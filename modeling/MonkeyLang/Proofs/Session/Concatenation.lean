import Mathlib
import MonkeyLang.Proofs.Parse.Concatenation
import MonkeyLang.Proofs.Session.Report

/-!
# Running one text after another

A session that runs two texts one after the other does what it does when it runs them as one text,
with the first one in front: `run_append`.  This needs the first text to end with a semicolon, so
that it can be read by itself.  If the first text is left early, by an error or by a `return`, then
the one text is left there as well.

## What differs

Run as one text, the statements of the second text stand at other places, and they belong to the
same program as those of the first.  So the functions that they make have another origin.  A host
cannot see that except by comparing functions, and `Outcome.seen` is everything else that it sees:
the result, and the bindings of all scopes.

An empty second text is a special case.  Run by itself it gives `null`, and added to the first one
it gives the value of the first one.  For all others the value comes from the second text.

A `return` ends a program.  Run one after the other, the second text is run after a first one that
ended with a `return`; run as one text, it is not.  This is why the statement asks whether the
statements of the first text come to their end, and not whether its run gives a value.
-/

set_option autoImplicit false

namespace MonkeyLang

/-! ## Statements -/

namespace Eval

/-- Running statements is running the first of them and then the others, with the depth that is
left.  The second part has less depth, which does not matter once there is enough. -/
theorem statements_append (depth : Nat) (frame : Frame) (last : Value) (xs ys : List Stmt) :
    statements depth frame last (xs ++ ys) =
      statements depth frame last xs >>= fun v ↦ statements (depth - xs.length) frame v ys := by
  induction xs generalizing depth last with
  | nil =>
    cases depth with
    | zero => rfl
    | succ depth => rfl
  | cons s xs ih =>
    cases depth with
    | zero => rfl
    | succ depth =>
      rw [List.cons_append, statements, statements, List.length_cons, Nat.add_sub_add_right,
        bind_assoc]
      simp only [ih]

/-- The value before the first statement does not matter. -/
theorem statements_last {ys : List Stmt} (h : ys ≠ []) (depth : Nat) (frame : Frame)
    (last last' : Value) : statements depth frame last ys = statements depth frame last' ys := by
  cases ys with
  | nil => exact absurd rfl h
  | cons s ys =>
    cases depth with
    | zero => rfl
    | succ depth => rfl

end Eval

/-! ## Programs -/

theorem mapTokensStmts_eq_nil {change : Token → Token} {ss : List Stmt} :
    mapTokensStmts change ss = [] ↔ ss = [] := by
  cases ss <;> simp

/-- With less depth, but only by a constant, nothing changes in the end. -/
theorem Settles.sub {ε σ α : Type} {family : Nat → Action ε σ α} {s : σ} {o : Outcome ε σ α}
    (h : Settles family s o) (n : Nat) : Settles (fun depth ↦ family (depth - n)) s o := by
  obtain ⟨least, hleast⟩ := h
  exact ⟨least + n, fun depth hle ↦ hleast (depth - n) (by omega)⟩

namespace Program

variable {first : Program} {ys : List Stmt} {scope : ScopeId} {m : Machine}

theorem evalSignals_append (depth : Nat) :
    (Program.mk (first.statements ++ ys)).evalSignals depth scope m =
      (first.evalSignals depth scope >>= fun v ↦
        Eval.statements (depth - first.statements.length) ⟨scope, m.units⟩ v ys) m := by
  rw [evalSignals, Eval.statements_append]
  rfl

/-- What leaves the first statements early, or never ends in them, does the same with others after
them.  That is a `return`, an error, or a run without an end. -/
theorem settles_append_of_not_done {o : Outcome Signal Machine Value}
    (h : Settles (fun depth ↦ first.evalSignals depth scope) m o)
    (hne : ∀ v m₁, o ≠ .done v m₁) :
    Settles (fun depth ↦ (Program.mk (first.statements ++ ys)).evalSignals depth scope) m o := by
  obtain ⟨least, hleast⟩ := h
  refine ⟨least, fun depth hle ↦ (evalSignals_append depth).trans ?_⟩
  have hfirst : first.evalSignals depth scope m = o := hleast depth hle
  rw [Action.bind_apply, hfirst]
  cases o with
  | done v m₁ => exact absurd rfl (hne v m₁)
  | stop e m₁ => rfl
  | exhausted => rfl

/-- After the first statements the others are run from the state that they left. -/
theorem settles_append_of_done {v : Value} {m₁ : Machine} {o : Outcome Signal Machine Value}
    (h : Settles (fun depth ↦ first.evalSignals depth scope) m (.done v m₁)) (hys : ys ≠ [])
    (hrest : Settles (fun depth ↦ Eval.statements depth ⟨scope, m.units⟩ .null ys) m₁ o) :
    Settles (fun depth ↦ (Program.mk (first.statements ++ ys)).evalSignals depth scope) m o := by
  have hbind : Settles (fun depth ↦ first.evalSignals depth scope >>= fun v ↦
      Eval.statements (depth - first.statements.length) ⟨scope, m.units⟩ v ys) m o := by
    refine h.bind ?_
    simp only [Eval.statements_last hys _ _ v .null]
    exact hrest.sub first.statements.length
  obtain ⟨least, hleast⟩ := hbind
  exact ⟨least, fun depth hle ↦ (evalSignals_append depth).trans (hleast depth hle)⟩

/-- The same statements at other places, run as part of another program.  Functions that are made
on the way have other origins.  What a host sees of them is the same. -/
theorem seen_statements (second : Program) (change : Token → Token) (scope : ScopeId) (unit : Nat)
    (m : Machine) :
    ∃ o o', Settles (fun depth ↦ second.evalSignals depth scope) m o ∧
      Settles (fun depth ↦
        Eval.statements depth ⟨scope, unit⟩ .null (mapTokensStmts change second.statements)) m o' ∧
      (o'.unwound.mapReason .eval).seen = (o.unwound.mapReason .eval).seen := by
  obtain ⟨o, ho⟩ := Settles.exists_of_grow (fun depth ↦ second.below_evalSignals depth scope) m
  obtain ⟨o', ho'⟩ := Settles.exists_of_grow (fun depth ↦ Eval.below_statements depth ⟨scope, unit⟩
    .null (mapTokensStmts change second.statements)) m
  have hmirrors : ∀ depth, Eval.Mirrors Eq Value.Alike
      (Eval.statements depth ⟨scope, m.units⟩ .null second.statements)
      (Eval.statements depth ⟨scope, unit⟩ .null (mapTokensStmts change second.statements)) := by
    intro depth
    refine Eval.mirrors_statements depth ?_ change alike_null second.statements
    rfl
  have htogether := ho.together ho' fun depth ↦
    hmirrors depth { m with units := m.units + 1 } m (.refl m.store)
  exact ⟨o, o', ho, ho', (Outcome.AlikeRuns.unwound htogether).seen_eq⟩

end Program

/-! ## Texts -/

/-- **Running two texts one after the other is running them as one.**  The first text can be read
and ends with a semicolon.

* With any second text after it, the statements of both are read one after the other, and the errors
  are those of the second text, with the places of the second text moved.
* If the second text can be read and is not empty, and if the first one runs to its end, then a host
  sees the same of a run of the whole as of a run of the second text after one of the first.
* If the first text is left early or runs forever, then so does the whole, in the same way. -/
theorem run_append {first : String} (herrors : (parse first).errors = [])
    (hlast : Grammar.EndsWithSemicolon (tokenize first).dropLast) (second : String) :
    (parse (first ++ second)).program.statements =
        (parse first).program.statements ++
          mapTokensStmts (Token.move (.shift first.toList)) (parse second).program.statements ∧
      (parse (first ++ second)).errors =
        (parse second).errors.map (ParseError.move (.shift first.toList)) ∧
      ((parse second).errors = [] → (parse second).program.statements ≠ [] →
        ∀ (scope : ScopeId) (m : Machine),
          (∀ v m₁, Settles (fun depth ↦ (parse first).program.evalSignals depth scope) m
              (.done v m₁) →
            Settles (fun depth ↦ run depth scope first) m (.done v m₁) ∧
              ∃ o o', Settles (fun depth ↦ run depth scope (first ++ second)) m o ∧
                Settles (fun depth ↦ run depth scope second) m₁ o' ∧ o.seen = o'.seen) ∧
          ((∀ v m₁, ¬ Settles (fun depth ↦ (parse first).program.evalSignals depth scope) m
              (.done v m₁)) →
            ∃ o, Settles (fun depth ↦ run depth scope first) m o ∧
              Settles (fun depth ↦ run depth scope (first ++ second)) m o)) := by
  have hparse := parse_append_of_semicolon herrors hlast second
  refine ⟨by rw [hparse], by rw [hparse], fun herrors₂ hne scope m ↦ ?_⟩
  have hfirst : parseProgram first = .ok (parse first).program :=
    parseProgram_eq_ok.2 ⟨herrors, rfl⟩
  have hsecond : parseProgram second = .ok (parse second).program :=
    parseProgram_eq_ok.2 ⟨herrors₂, rfl⟩
  have hwhole : parseProgram (first ++ second) = .ok ⟨(parse first).program.statements ++
      mapTokensStmts (Token.move (.shift first.toList)) (parse second).program.statements⟩ := by
    refine parseProgram_eq_ok.2 ⟨?_, by rw [hparse]⟩
    rw [hparse, herrors₂]
    rfl
  constructor
  · intro v m₁ hdone
    obtain ⟨o, o', ho, ho', hseen⟩ := (parse second).program.seen_statements
      (Token.move (.shift first.toList)) scope m.units m₁
    refine ⟨settles_run hfirst hdone, _, _, ?_, settles_run hsecond ho, hseen⟩
    refine settles_run hwhole (Program.settles_append_of_done hdone ?_ ho')
    exact fun hnil ↦ hne (mapTokensStmts_eq_nil.1 hnil)
  -- the first text has no value: both runs end as it does, or neither ends
  · intro hearly
    obtain ⟨o, ho⟩ := Settles.exists_of_grow
      (fun depth ↦ (parse first).program.below_evalSignals depth scope) m
    refine ⟨_, settles_run hfirst ho, settles_run hwhole ?_⟩
    refine Program.settles_append_of_not_done ho ?_
    rintro v m₁ rfl
    exact hearly v m₁ ho

/-- A name that the first text binds, in the second one. -/
theorem run_append_name :
    ∃ m₁ o o',
      Settles (fun depth ↦ run depth 0 "let x=1;") (Machine.initial.newScope none).2
          (.done .null m₁) ∧
        Settles (fun depth ↦ run depth 0 ("let x=1;" ++ "x")) (Machine.initial.newScope none).2 o ∧
        Settles (fun depth ↦ run depth 0 "x") m₁ o' ∧ o.seen = o'.seen := by
  have herrors : (parse "let x=1;").errors = [] := by cbv
  have hlast : (tokenize "let x=1;").dropLast.getLast? = some ⟨.symbol .semicolon, ⟨1, 8⟩⟩ := by
    cbv
  have hsecond : ((parse "x").errors.length, (parse "x").program.statements.length) = (0, 1) := by
    cbv
  obtain ⟨herrors₂, hlength⟩ := Prod.mk.inj hsecond
  have heval : (parse "let x=1;").program.evalSignals 4 0 (Machine.initial.newScope none).2 =
      .done .null ⟨⟨#[⟨[("x", .int 1)], none⟩]⟩, "", 1⟩ := by cbv
  have hne : (parse "let x=1;").program.evalSignals 4 0 (Machine.initial.newScope none).2 ≠
      .exhausted := by
    rw [heval]
    simp
  have hsettles := Settles.of_ne_exhausted
    (fun depth ↦ (parse "let x=1;").program.below_evalSignals depth 0) hne
  rw [heval] at hsettles
  obtain ⟨-, -, hrun⟩ := run_append herrors ⟨_, hlast, rfl⟩ "x"
  obtain ⟨hdone, -⟩ := hrun (List.length_eq_zero_iff.1 herrors₂)
    (List.ne_nil_of_length_pos (by omega)) 0 (Machine.initial.newScope none).2
  obtain ⟨hfirst, o, o', ho, ho', hseen⟩ := hdone _ _ hsettles
  exact ⟨_, o, o', hfirst, ho, ho', hseen⟩

end MonkeyLang
