import Mathlib
import MonkeyLang.Proofs.Eval.Printed
import MonkeyLang.Proofs.Parse.Soundness
import MonkeyLang.Proofs.Session.Fresh
import MonkeyLang.Proofs.Shell.Lines

/-!
# What the shell writes

A session runs lines one after the other in one scope (`Session`).  Each of them makes an
`Exchange`: the line, the calls of `puts` that were made for it, and the result.  The shell writes
the prompt and the answer of each exchange, and a last prompt: `transcript_of_session`.

Between two prompts the shell takes all text that was printed, so that at a prompt there is none
(`Shell.ComesTo.printed_eq`), and what one line prints is written in the answer to that line.

## Exchanges

A session in this sense knows nothing of prompts, of printed text, or of bytes.  It says which
texts were run, with which results, and which calls of `puts` were made on the way.  The transcript
is a function of this: `conversation`.  So the theorem compares two things that are made in
different ways, the output of a loop that takes text out of the machine after each line, and a list
of exchanges written down in order.

A value is shown unless the line is empty or its last statement is a `let` and the value is `null`.
A line can end with a `let` and have another value, by a `return` before it, and then the value is
shown.

## Endless runs

A session has an exchange for each line, so all of its lines are runs that end.  Where a line runs
for ever the shell writes nothing more.  What it wrote before is still the conversation up to there
(`Shell.ComesTo.converse_eq`).

The configuration that shows tokens instead of running lines is excluded by a hypothesis.
-/

set_option autoImplicit false

namespace MonkeyLang

/-! ## Exchanges -/

/-- The calls of `puts` that running a text makes: none if there is something wrong with it. -/
def putsOfRun (depth : Nat) (scope : ScopeId) (text : String) (m : Machine) : List (List Value) :=
  match parseProgram text with
  | .ok p => p.puts depth scope m
  | .error _ => []

/-- The result of an action and the state that it left, if it ended. -/
def Outcome.result? {ε σ α : Type} : Outcome ε σ α → Option (Except ε α × σ)
  | .done value s => some (.ok value, s)
  | .stop reason s => some (.error reason, s)
  | .exhausted => none

/-- A line, the calls of `puts` that running it made, and its result.  The calls are those of the
evaluation, and are not read off the text that was printed. -/
structure Exchange where
  line : String
  calls : List (List Value)
  result : Except RunError Value

/-- The value of a program is not shown: there was nothing to run, or all that was done last is a
binding. -/
def Program.Quiet (p : Program) (value : Value) : Prop :=
  p.statements = [] ∨
    (∃ t id e, p.statements.getLast? = some (.letStmt t id e)) ∧ value = .null

/-- The condition that the shell tests. -/
theorem Program.quiet_iff (p : Program) (value : Value) :
    (value.type = .null ∧ p.endsWithLet = true) ∨ p.statements.isEmpty = true ↔
      p.Quiet value := by
  have hnull : value.type = .null ↔ value = .null := by
    cases value <;> simp [Value.type]
  have hlet : p.endsWithLet = true ↔
      ∃ t id e, p.statements.getLast? = some (.letStmt t id e) := by
    rw [Program.endsWithLet]
    cases p.statements.getLast? with
    | none => simp
    | some s => cases s <;> simp [Stmt.isLet]
  rw [hnull, hlet, List.isEmpty_iff, Program.Quiet, and_comm, or_comm]

instance (p : Program) (value : Value) : Decidable (p.Quiet value) :=
  decidable_of_iff _ (p.quiet_iff value)

theorem Shell.valueLine_eq (p : Program) (value : Value) :
    Shell.valueLine p value = if p.Quiet value then "" else value.display ++ "\n" :=
  if_congr (p.quiet_iff value) rfl rfl

namespace Exchange

/-- What the shell writes after the line. -/
def answer (x : Exchange) : String :=
  match x.result with
  | .error (.parse errors) =>
    "parser errors:\n" ++ String.join (errors.map fun e ↦ "\t" ++ e.message ++ "\n")
  | .error (.eval e) => putsText x.calls ++ "ERROR: " ++ e.message ++ "\n"
  | .ok value =>
    putsText x.calls ++ if (parse x.line).program.Quiet value then "" else value.display ++ "\n"

/-- Running the line in a scope of the machine `m` makes the exchange and leaves the machine `n`. -/
def Happens (x : Exchange) (scope : ScopeId) (m n : Machine) : Prop :=
  ∃ depth, (run depth scope x.line m).result? = some (x.result, n) ∧
    x.calls = putsOfRun depth scope x.line m

end Exchange

/-- Lines are run one after the other in one scope. -/
inductive Session (scope : ScopeId) : Machine → List Exchange → Machine → Prop where
  | nil (m : Machine) : Session scope m [] m
  | cons {m m' n : Machine} {x : Exchange} {exchanges : List Exchange} :
      x.Happens scope m m' → Session scope m' exchanges n → Session scope m (x :: exchanges) n

/-- The prompt and the answer of each exchange, and a last prompt. -/
def conversation (prompt : String) (exchanges : List Exchange) : String :=
  String.join (exchanges.map fun x ↦ prompt ++ x.answer) ++ prompt

/-! ## One line -/

theorem Program.settles_withPrinted (p : Program) {depth : Nat} {scope : ScopeId} {m : Machine}
    (hne : p.eval depth scope m ≠ .exhausted) (text : String) :
    Settles (fun depth ↦ p.eval depth scope) (m.withPrinted text)
      ((p.eval depth scope m).withPrinted (text ++ putsText (p.puts depth scope m))) := by
  have hprinted : p.eval depth scope (m.withPrinted text) ≠ .exhausted := by
    rw [p.eval_withPrinted]
    cases h : p.eval depth scope m with
    | done value n => simp [Outcome.withPrinted]
    | stop e n => simp [Outcome.withPrinted]
    | exhausted => exact absurd h hne
  rw [← p.eval_withPrinted]
  exact .of_ne_exhausted (fun depth ↦ p.below_eval depth scope) hprinted

/-- A line with errors is answered with its errors, and nothing is run. -/
theorem Shell.answer_of_error {config : Config} (hconfig : config.showTokens = false)
    {line : String} {errors : List ParseError} (h : parseProgram line = .error errors) (depth : Nat)
    (scope : ScopeId) (m : Machine) :
    Shell.answer depth config scope line m = .done (Shell.errorLines errors) m := by
  rw [Shell.answer, hconfig, h]
  rfl

/-- What the shell makes of the end of a program. -/
def Shell.answered (p : Program) : Outcome EvalError Machine Value → Outcome Empty Machine String
  | .done value m => .done (m.printed ++ valueLine p value) (m.withPrinted "")
  | .stop e m => .done (m.printed ++ "ERROR: " ++ e.message ++ "\n") (m.withPrinted "")
  | .exhausted => .exhausted

/-- No printed text is left after the answer. -/
theorem Shell.printed_of_answered {p : Program} {o : Outcome EvalError Machine Value}
    {shown : String} {n : Machine} (h : answered p o = .done shown n) : n.printed = "" := by
  cases o <;> cases h <;> rfl

/-- A line without errors is answered with what it printed and its value or error. -/
theorem Shell.answer_of_ok {config : Config} (hconfig : config.showTokens = false)
    {line : String} {p : Program} (h : parseProgram line = .ok p) (depth : Nat)
    (scope : ScopeId) (m : Machine) :
    Shell.answer depth config scope line m = answered p (p.eval depth scope m) := by
  rw [Shell.answer, hconfig, h]
  dsimp only
  cases p.eval depth scope m <;> rfl

namespace Exchange.Happens

variable {x : Exchange} {scope : ScopeId} {m n : Machine}

/-- A line with errors changes nothing. -/
theorem of_error (h : x.Happens scope m n) {errors : List ParseError}
    (herrors : parseProgram x.line = .error errors) :
    x.result = .error (.parse errors) ∧ n = m := by
  obtain ⟨depth, hrun, -⟩ := h
  rw [run_of_error herrors, Outcome.result?] at hrun
  obtain ⟨hresult, hm⟩ := Prod.mk.inj (Option.some.inj hrun)
  exact ⟨hresult.symm, hm.symm⟩

/-- The program of a line without errors ends, and with the text of its calls printed it is answered
as the exchange says. -/
theorem of_ok (h : x.Happens scope m n) {p : Program} (hp : parseProgram x.line = .ok p) :
    ∃ depth, p.eval depth scope m ≠ .exhausted ∧
      Shell.answered p ((p.eval depth scope m).withPrinted (putsText (p.puts depth scope m))) =
        .done x.answer (n.withPrinted "") := by
  obtain ⟨depth, hrun, hcalls⟩ := h
  have hprogram : (parse x.line).program = p := (parseProgram_eq_ok.1 hp).2
  rw [putsOfRun, hp] at hcalls
  rw [run, hp] at hrun
  dsimp only at hcalls hrun
  refine ⟨depth, ?_⟩
  rw [← hcalls, Exchange.answer]
  cases heval : p.eval depth scope m with
  | done value n' =>
    rw [heval] at hrun
    obtain ⟨hresult, rfl⟩ := Prod.mk.inj (Option.some.inj hrun)
    refine ⟨by simp, ?_⟩
    rw [← hresult, hprogram]
    show Outcome.done (putsText x.calls ++ Shell.valueLine p value) _ = _
    rw [Shell.valueLine_eq]
    rfl
  | stop e n' =>
    rw [heval] at hrun
    obtain ⟨hresult, rfl⟩ := Prod.mk.inj (Option.some.inj hrun)
    refine ⟨by simp, ?_⟩
    rw [← hresult]
    rfl
  | exhausted =>
    rw [heval] at hrun
    cases hrun

/-- The shell answers a line as its exchange says, and takes all that was printed. -/
theorem settles_answer (h : x.Happens scope m n) {config : Config}
    (hconfig : config.showTokens = false) :
    Settles (fun depth ↦ Shell.answer depth config scope x.line) (m.withPrinted "")
      (.done x.answer (n.withPrinted "")) := by
  cases hp : parseProgram x.line with
  | error errors =>
    obtain ⟨hresult, rfl⟩ := h.of_error hp
    refine .of_forall fun depth ↦ ?_
    rw [Shell.answer_of_error hconfig hp, Exchange.answer, hresult]
    rfl
  | ok p =>
    obtain ⟨depth, hne, hanswer⟩ := h.of_ok hp
    obtain ⟨least, hleast⟩ := p.settles_withPrinted hne ""
    refine ⟨least, fun depth' hle ↦ ?_⟩
    calc Shell.answer depth' config scope x.line (m.withPrinted "")
        = Shell.answered p (p.eval depth' scope (m.withPrinted "")) :=
          Shell.answer_of_ok hconfig hp depth' scope _
      _ = Shell.answered p ((p.eval depth scope m).withPrinted
            ("" ++ putsText (p.puts depth scope m))) :=
          congrArg (Shell.answered p) (hleast depth' hle)
      _ = .done x.answer (n.withPrinted "") := by rw [String.empty_append, hanswer]

end Exchange.Happens

/-! ## Whole conversations

By induction on the exchanges.  What is left of the input are the lines from the first one on that
could not be read. -/

/-- The shell writes the conversation of a session. -/
theorem Session.settles_converse {config : Config} (hconfig : config.showTokens = false)
    {scope : ScopeId} {m n : Machine} {exchanges : List Exchange}
    (h : Session scope m exchanges n) {rest : List (List UInt8)}
    (hrest : ∀ line ∈ rest.head?, ∀ text, utf8 text ≠ line) :
    Settles (fun depth ↦ Shell.converse depth config scope
        ((exchanges.map Exchange.line).map utf8 ++ rest)) (m.withPrinted "")
      (.done ⟨conversation config.prompt exchanges, rest.head?.map fun _ ↦ .invalidUtf8⟩
        (n.withPrinted "")) := by
  induction h with
  | nil m =>
    cases rest with
    | nil => exact .of_forall fun _ ↦ rfl
    | cons line rest =>
      have hline : Shell.decode? line = none := by
        cases hdecode : Shell.decode? line with
        | none => rfl
        | some text => exact absurd (Shell.decode?_eq_some_iff.1 hdecode) (hrest line rfl text)
      refine .of_forall fun depth ↦ ?_
      show Shell.converse depth config scope (line :: rest) _ = _
      rw [Shell.converse, hline]
      rfl
  | @cons m m' n x exchanges hx _ ih =>
    have hline : Shell.decode? (utf8 x.line) = some x.line := Shell.decode?_eq_some_iff.2 rfl
    have hconverse : ∀ depth, Shell.converse depth config scope
        (((x :: exchanges).map Exchange.line).map utf8 ++ rest) = (do
          let shown ← Shell.answer depth config scope x.line
          let later ← Shell.converse depth config scope
            ((exchanges.map Exchange.line).map utf8 ++ rest)
          pure ⟨config.prompt ++ shown ++ later.output, later.failure⟩) := by
      intro depth
      rw [List.map_cons, List.map_cons, List.cons_append, Shell.converse, hline]
    simp only [hconverse]
    refine (hx.settles_answer hconfig).bind (ih.bind (.of_forall fun depth ↦ ?_))
    rw [conversation, conversation, List.map_cons, String.join_cons, Action.pure_apply]
    simp only [String.append_assoc]

/-- With the lines `lines` before it and in the state `m`, the shell comes to a prompt with `lines'`
before it and in the state `m'`. -/
inductive Shell.ComesTo (depth : Nat) (config : Config) (scope : ScopeId) :
    List (List UInt8) → Machine → List (List UInt8) → Machine → Prop where
  | here (lines : List (List UInt8)) (m : Machine) : ComesTo depth config scope lines m lines m
  | next {line : List UInt8} {text shown : String} {rest lines' : List (List UInt8)}
      {m n m' : Machine} : decode? line = some text →
      answer depth config scope text m = .done shown n →
      ComesTo depth config scope rest n lines' m' →
        ComesTo depth config scope (line :: rest) m lines' m'

/-- No printed text is left at a prompt. -/
theorem Shell.ComesTo.printed_eq {depth : Nat} {config : Config} {scope : ScopeId}
    (hconfig : config.showTokens = false) {lines lines' : List (List UInt8)} {m m' : Machine}
    (h : ComesTo depth config scope lines m lines' m') (hm : m.printed = "") :
    m'.printed = "" := by
  induction h with
  | here lines m => exact hm
  | @next line text shown rest lines' m n m' hdecode hanswer hnext ih =>
    refine ih ?_
    cases hp : parseProgram text with
    | error errors =>
      rw [answer_of_error hconfig hp] at hanswer
      cases hanswer
      exact hm
    | ok p =>
      rw [answer_of_ok hconfig hp] at hanswer
      exact printed_of_answered hanswer

/-- From a prompt on, the shell writes what it would write if it started there. -/
theorem Shell.ComesTo.converse_eq {depth : Nat} {config : Config} {scope : ScopeId}
    {lines lines' : List (List UInt8)} {m m' : Machine}
    (h : ComesTo depth config scope lines m lines' m') :
    ∃ before, ∀ t n, converse depth config scope lines' m' = .done t n →
      converse depth config scope lines m = .done ⟨before ++ t.output, t.failure⟩ n := by
  induction h with
  | here lines m => exact ⟨"", fun t n ht ↦ by rw [ht, String.empty_append]⟩
  | @next line text shown rest lines' m n m' hdecode hanswer _ ih =>
    obtain ⟨before, hbefore⟩ := ih
    refine ⟨config.prompt ++ shown ++ before, fun t k ht ↦ ?_⟩
    rw [converse, hdecode]
    dsimp only
    rw [Action.bind_of_done hanswer, Action.bind_of_done (hbefore t k ht), Action.pure_apply]
    simp only [String.append_assoc]

/-- **The transcript of the shell is the session.**

* Every input is read line by line up to a line that is no valid text.  The bytes of a text are read
  to the end, and the lines are those of the text, cut after each line feed.
* If running the lines in one new scope of the shell makes these exchanges, the shell writes their
  conversation, and fails only if there is a line that it could not read.  It leaves the machine
  that the session leaves, without printed text.
* A line with errors leaves the machine as it is.
* Whatever was printed earlier, at every prompt of the conversation there is no printed text. -/
theorem transcript_of_session {config : Config} (hconfig : config.showTokens = false)
    (m : Machine) :
    (∀ input, ∃ texts rest, Shell.Reads input texts rest) ∧
    (∀ text texts rest, Shell.Reads (utf8 text) texts rest →
      rest = [] ∧ CutAfter '\n' text.toList (texts.map String.toList)) ∧
    (∀ input rest exchanges n, Shell.Reads input (exchanges.map Exchange.line) rest →
      Session m.newShellScope.1 m.newShellScope.2 exchanges n →
        Settles (fun depth ↦ Shell.start depth config input) m
          (.done ⟨conversation config.prompt exchanges, rest.head?.map fun _ ↦ .invalidUtf8⟩
            (n.withPrinted ""))) ∧
    (∀ (x : Exchange) scope n n' errors, x.Happens scope n n' →
      parseProgram x.line = .error errors → x.result = .error (.parse errors) ∧ n' = n) ∧
    ∀ depth input rest n, Shell.ComesTo depth config m.newShellScope.1 (Shell.lines input)
        m.newShellScope.2.takePrinted.2 rest n →
      n.printed = "" ∧
        ∃ before, ∀ t n', Shell.converse depth config m.newShellScope.1 rest n = .done t n' →
          Shell.start depth config input m = .done ⟨before ++ t.output, t.failure⟩ n' := by
  refine ⟨Shell.Reads.exists_of_input, fun text texts rest ↦ Shell.Reads.of_text, ?_,
    fun x scope n n' errors hx ↦ hx.of_error, ?_⟩
  · intro input rest exchanges n hreads hsession
    have hconverse := hsession.settles_converse hconfig hreads.stuck
    rw [← Shell.lines_eq_iff.2 hreads.cut] at hconverse
    exact hconverse
  · intro depth input rest n hcomes
    exact ⟨hcomes.printed_eq hconfig rfl, hcomes.converse_eq⟩

/-- A session that prints under another name before it fails. -/
theorem transcript_of_session_alias :
    Config.standard.showTokens = false ∧
      ∃ n, Settles (fun depth ↦ Shell.start depth .standard (utf8 "let p=puts\np(1);1/0")) .initial
        (.done ⟨">> >> 1\nERROR: division by zero\n>> ", none⟩ n) := by
  let x : Exchange := ⟨"let p=puts\n", [], .ok .null⟩
  let y : Exchange := ⟨"p(1);1/0", [[.int 1]], .error (.eval .divisionByZero)⟩
  let store : Store := ⟨#[⟨[("p", .builtin .puts), ("puts", .builtin .puts)], none⟩]⟩
  have hx : x.Happens 0 Machine.initial.newShellScope.2 ⟨store, "", 1⟩ :=
    ⟨8, by cbv, by cbv⟩
  have hy : y.Happens 0 ⟨store, "", 1⟩ ⟨store, "1\n", 2⟩ := ⟨8, by cbv, by cbv⟩
  have hlines : Shell.lines (utf8 "let p=puts\np(1);1/0") = [utf8 x.line, utf8 y.line] := by cbv
  have hlet : (parse x.line).program.endsWithLet = true := by cbv
  have hquiet : (parse x.line).program.Quiet .null :=
    (Program.quiet_iff _ _).1 (.inl ⟨rfl, hlet⟩)
  have hanswer : x.answer = "" := by
    rw [Exchange.answer]
    exact congrArg (putsText x.calls ++ ·) (if_pos hquiet)
  have hanswer' : y.answer = "1\nERROR: division by zero\n" := by
    have hputs : putsText [[.int 1]] = "1\n" := by cbv
    rw [Exchange.answer]
    exact congrArg (· ++ "ERROR: " ++ EvalError.divisionByZero.message ++ "\n") hputs
  have htext : conversation Config.standard.prompt [x, y] =
      ">> >> 1\nERROR: division by zero\n>> " := by
    simp only [conversation, List.map_cons, List.map_nil, hanswer, hanswer']
    rfl
  have hreads : Shell.Reads (utf8 "let p=puts\np(1);1/0") [x.line, y.line] [] :=
    ⟨Shell.lines_eq_iff.1 hlines, fun line hline ↦ by cases hline⟩
  have hconfig : Config.standard.showTokens = false := rfl
  have hsettles := (transcript_of_session hconfig .initial).2.2.1 _ [] [x, y] _ hreads
    (.cons hx (.cons hy (.nil _)))
  rw [htext] at hsettles
  exact ⟨hconfig, _, hsettles⟩

end MonkeyLang
