import MonkeyLang.Proofs.Eval.Depth

/-!
# What a run prints

Only calls of `puts` print.  `Eval.putsOfExpression` and its siblings list the calls that are made
on the way, in order and each with its arguments, wherever they stand in the program: in a nested
call, under another name, or before the evaluation stops early.

`Eval.Prints run calls` says that an evaluation adds the text of its calls to what was printed
before, and that nothing else depends on that text.  So it can be taken away at any time, and it is
neither lost nor printed twice.

## The list of calls

Calls of `puts` cannot be seen in the text of a program: `puts` is a value that can be passed
around, and a call of it is a call of whatever a name is bound to at that moment.  So the list is
computed along the evaluation.  `Eval.putsOfExpression` takes the same arguments as
`Eval.expression` and goes the same way, with the evaluation itself telling how each part ends.  It
collects the arguments of calls and never looks at the text that was printed.

The alternative would be to record each call in the machine, and to compute the text from the
record.  The record would have to be part of what runs.

## Text and machine

`Machine.withPrinted` exchanges the text and leaves the rest.  That an evaluation does not depend
on the text is the equation `Prints` itself: with another text before, it ends in the same way with
another text after.  A shell relies on this when it takes the text away between two programs.
-/

set_option autoImplicit false

namespace MonkeyLang

/-! ## Text that was printed -/

/-- The text of calls of `puts`: each argument stands on a line of its own.  The text is the lines
of all arguments of all calls, in order.  A call without arguments prints nothing, and no call
prints half a line. -/
def putsText (calls : List (List Value)) : String :=
  String.join (calls.flatten.map fun v ↦ v.display ++ "\n")

@[simp]
theorem putsText_nil : putsText [] = "" := rfl

theorem putsText_append (calls later : List (List Value)) :
    putsText (calls ++ later) = putsText calls ++ putsText later := by
  rw [putsText, putsText, putsText, List.flatten_append, List.map_append, String.join_append]

/-- One call adds the lines of its arguments. -/
theorem foldl_putsText (arguments : List Value) (text : String) :
    arguments.foldl (fun text v ↦ text ++ v.display ++ "\n") text =
      text ++ putsText [arguments] := by
  induction arguments generalizing text with
  | nil => exact String.append_empty.symm
  | cons v rest ih =>
    rw [List.foldl_cons, ih]
    simp only [putsText, List.flatten_cons, List.flatten_nil, List.append_nil, List.map_cons,
      String.join_cons, String.append_assoc]

/-- The machine with another text that was printed. -/
def Machine.withPrinted (m : Machine) (text : String) : Machine := { m with printed := text }

/-- The outcome with another text that was printed. -/
def Outcome.withPrinted {ε α : Type} (text : String) : Outcome ε Machine α → Outcome ε Machine α
  | .done v m => .done v (m.withPrinted text)
  | .stop e m => .stop e (m.withPrinted text)
  | .exhausted => .exhausted

namespace Eval

/-! ## The calls of `puts` on the way -/

/-- The calls on the way through `first`, and on from where it is done.  Where an evaluation stops,
or runs out of its bound, the list ends: what would have come later was not called. -/
def followed {α : Type} (calls : Machine → List (List Value)) (first : Eval α)
    (later : α → Machine → List (List Value)) (m : Machine) : List (List Value) :=
  calls m ++
    match first m with
    | .done v m => later v m
    | _ => []

mutual

/-- The calls of `puts` that evaluating an expression makes. -/
def putsOfExpression : Nat → Frame → Expr → Machine → List (List Value)
  | 0, _, _ => fun _ ↦ []
  | _ + 1, _, .ident _ | _ + 1, _, .int _ _ | _ + 1, _, .string _ _ | _ + 1, _, .bool _ _
  | _ + 1, _, .function _ _ _ => fun _ ↦ []
  | depth + 1, frame, .unary _ _ operand => putsOfExpression depth frame operand
  | depth + 1, frame, .binary _ _ left right =>
    followed (putsOfExpression depth frame left) (expression depth frame left) fun _ ↦
      putsOfExpression depth frame right
  | depth + 1, frame, .cond _ condition consequence alternative =>
    followed (putsOfExpression depth frame condition) (expression depth frame condition) fun v ↦
      if v.truthy then putsOfStatements depth frame consequence.statements
      else
        match alternative with
        | some block => putsOfStatements depth frame block.statements
        | none => fun _ ↦ []
  | depth + 1, frame, .call _ callee arguments =>
    followed (putsOfExpression depth frame callee) (expression depth frame callee) fun f ↦
      followed (putsOfExpressions depth frame arguments) (expressions depth frame arguments)
        fun vs ↦ putsOfApply depth f vs
  | depth + 1, frame, .array _ elements => putsOfExpressions depth frame elements
  | depth + 1, frame, .index _ collection position =>
    followed (putsOfExpression depth frame collection) (expression depth frame collection) fun _ ↦
      putsOfExpression depth frame position
  | depth + 1, frame, .hash _ pairs => putsOfPairs depth frame pairs

/-- The calls of `puts` that evaluating expressions in order makes. -/
def putsOfExpressions : Nat → Frame → List Expr → Machine → List (List Value)
  | 0, _, _ => fun _ ↦ []
  | _ + 1, _, [] => fun _ ↦ []
  | depth + 1, frame, e :: rest =>
    followed (putsOfExpression depth frame e) (expression depth frame e) fun _ ↦
      putsOfExpressions depth frame rest

/-- The calls of `puts` that evaluating the pairs of a hash makes: none after a key that is none. -/
def putsOfPairs : Nat → Frame → List (Expr × Expr) → Machine → List (List Value)
  | 0, _, _ => fun _ ↦ []
  | _ + 1, _, [] => fun _ ↦ []
  | depth + 1, frame, (key, value) :: rest =>
    followed (putsOfExpression depth frame key) (expression depth frame key) fun v ↦
      if v.key?.isSome then
        followed (putsOfExpression depth frame value) (expression depth frame value) fun _ ↦
          putsOfPairs depth frame rest
      else fun _ ↦ []

/-- The calls of `puts` that a statement makes. -/
def putsOfStatement : Nat → Frame → Stmt → Machine → List (List Value)
  | 0, _, _ => fun _ ↦ []
  | depth + 1, frame, .letStmt _ _ value => putsOfExpression depth frame value
  | depth + 1, frame, .returnStmt _ value =>
    match value with
    | some e => putsOfExpression depth frame e
    | none => fun _ ↦ []
  | depth + 1, frame, .exprStmt _ e => putsOfExpression depth frame e

/-- The calls of `puts` that statements make one after the other. -/
def putsOfStatements : Nat → Frame → List Stmt → Machine → List (List Value)
  | 0, _, _ => fun _ ↦ []
  | _ + 1, _, [] => fun _ ↦ []
  | depth + 1, frame, s :: rest =>
    followed (putsOfStatement depth frame s) (statement depth frame s) fun _ ↦
      putsOfStatements depth frame rest

/-- The calls of `puts` that calling a value makes: itself, if the value is `puts`. -/
def putsOfApply : Nat → Value → List Value → Machine → List (List Value)
  | 0, _, _ => fun _ ↦ []
  | depth + 1, .function f, arguments =>
    if f.parameters.length = arguments.length then
      followed (fun _ ↦ []) (enter f arguments) fun frame ↦
        putsOfStatements depth frame f.body.statements
    else fun _ ↦ []
  | _ + 1, .builtin b, arguments => fun _ ↦ if b = .puts then [arguments] else []
  | _ + 1, _, _ => fun _ ↦ []

end

/-! ## Evaluations that print their calls -/

/-- Whatever was printed before, the evaluation adds the text of the calls, and all else stays as
it is. -/
def Prints {α : Type} (run : Eval α) (calls : Machine → List (List Value)) : Prop :=
  ∀ (m : Machine) (text : String),
    run (m.withPrinted text) = (run m).withPrinted (text ++ putsText (calls m))

namespace Prints

variable {α β : Type}

/-- An evaluation that does not look at the printed text and does not change it. -/
theorem of_silent {run : Eval α}
    (h : ∀ m text, run (m.withPrinted text) = (run m).withPrinted text) :
    Prints run fun _ ↦ [] := by
  intro m text
  rw [putsText_nil, String.append_empty, h]

theorem pure (value : α) : Prints (pure value : Eval α) fun _ ↦ [] := of_silent fun _ _ ↦ rfl

theorem exhaust : Prints (Action.exhaust : Eval α) fun _ ↦ [] := of_silent fun _ _ ↦ rfl

theorem halt (signal : Signal) : Prints (Action.halt signal : Eval α) fun _ ↦ [] :=
  of_silent fun _ _ ↦ rfl

theorem ofExcept (result : Except EvalError α) : Prints (ofExcept result) fun _ ↦ [] := by
  cases result with
  | ok value => exact pure value
  | error e => exact halt _

theorem bind {first : Eval α} {next : α → Eval β} {calls : Machine → List (List Value)}
    {later : α → Machine → List (List Value)} (h : Prints first calls)
    (hnext : ∀ v, Prints (next v) (later v)) :
    Prints (first >>= next) (followed calls first later) := by
  intro m text
  rw [Action.bind_apply, Action.bind_apply, h m text, followed]
  cases first m with
  | done v n =>
    show next v (n.withPrinted _) = (next v n).withPrinted _
    rw [hnext v n, putsText_append, String.append_assoc]
  | stop e n =>
    show Outcome.stop e _ = Outcome.stop e _
    rw [List.append_nil]
  | exhausted => rfl

/-- What is done last prints nothing. -/
theorem bind_silent {first : Eval α} {next : α → Eval β} {calls : Machine → List (List Value)}
    (h : Prints first calls) (hnext : ∀ v, Prints (next v) fun _ ↦ []) :
    Prints (first >>= next) calls := by
  have hcalls : followed calls first (fun _ _ ↦ []) = calls := by
    funext m
    rw [followed]
    cases first m <;> exact List.append_nil _
  have hbind := h.bind hnext
  rwa [hcalls] at hbind

theorem lookup (frame : Frame) (text : String) : Prints (lookup frame text) fun _ ↦ [] := by
  refine of_silent fun m printed ↦ ?_
  rw [Eval.lookup, Eval.lookup]
  dsimp only [Machine.withPrinted]
  cases m.store.lookup frame.scope text with
  | some value => rfl
  | none => cases Builtin.ofName? text <;> rfl

theorem assign (frame : Frame) (text : String) (value : Value) :
    Prints (assign frame text value) fun _ ↦ [] := of_silent fun _ _ ↦ rfl

theorem enter (f : Closure) (arguments : List Value) : Prints (enter f arguments) fun _ ↦ [] :=
  of_silent fun _ _ ↦ rfl

theorem boundary {run : Eval Value} {calls : Machine → List (List Value)} (h : Prints run calls) :
    Prints (boundary run) calls := by
  intro m text
  rw [Eval.boundary, Eval.boundary, h m text]
  cases run m with
  | done v n => rfl
  | stop signal n => cases signal <;> rfl
  | exhausted => rfl

theorem callBuiltin (b : Builtin) (arguments : List Value) :
    Prints (callBuiltin b arguments) fun _ ↦ if b = .puts then [arguments] else [] := by
  rw [Eval.callBuiltin]
  by_cases hb : b = .puts
  · subst hb
    intro m text
    rw [if_pos rfl, if_pos rfl]
    show Outcome.done _ _ = Outcome.done _ _
    dsimp only [Machine.withPrinted]
    rw [foldl_putsText]
  · rw [if_neg hb, if_neg hb]
    exact ofExcept _

end Prints

/-! ## Every construct -/

mutual

theorem prints_expression : ∀ depth frame (e : Expr),
    Prints (expression depth frame e) (putsOfExpression depth frame e)
  | 0, _, _ => .exhaust
  | _ + 1, frame, .ident id => .lookup frame id.name
  | _ + 1, _, .int _ _ | _ + 1, _, .string _ _ | _ + 1, _, .bool _ _
  | _ + 1, _, .function _ _ _ => .pure _
  | depth + 1, frame, .unary _ _ a =>
    (prints_expression depth frame a).bind_silent fun _ ↦ .ofExcept _
  | depth + 1, frame, .binary _ _ a b =>
    (prints_expression depth frame a).bind fun _ ↦
      (prints_expression depth frame b).bind_silent fun _ ↦ .ofExcept _
  | depth + 1, frame, .cond _ c b none => by
    refine (prints_expression depth frame c).bind fun v ↦ ?_
    split
    · exact prints_statements depth frame .null b.statements
    · exact .pure _
  | depth + 1, frame, .cond _ c b (some d) => by
    refine (prints_expression depth frame c).bind fun v ↦ ?_
    split
    · exact prints_statements depth frame .null b.statements
    · exact prints_statements depth frame .null d.statements
  | depth + 1, frame, .call _ f as =>
    (prints_expression depth frame f).bind fun v ↦
      (prints_expressions depth frame as).bind fun vs ↦ prints_apply depth v vs
  | depth + 1, frame, .array _ as => (prints_expressions depth frame as).bind_silent fun _ ↦ .pure _
  | depth + 1, frame, .index _ a i =>
    (prints_expression depth frame a).bind fun _ ↦
      (prints_expression depth frame i).bind_silent fun _ ↦ .ofExcept _
  | depth + 1, frame, .hash _ ps => (prints_entries depth frame [] ps).bind_silent fun _ ↦ .pure _

theorem prints_expressions : ∀ depth frame (es : List Expr),
    Prints (expressions depth frame es) (putsOfExpressions depth frame es)
  | 0, _, _ => .exhaust
  | _ + 1, _, [] => .pure _
  | depth + 1, frame, e :: es =>
    (prints_expression depth frame e).bind fun _ ↦
      (prints_expressions depth frame es).bind_silent fun _ ↦ .pure _

theorem prints_entries : ∀ depth frame collected (ps : List (Expr × Expr)),
    Prints (entries depth frame collected ps) (putsOfPairs depth frame ps)
  | 0, _, _, _ => .exhaust
  | _ + 1, _, _, [] => .pure _
  | depth + 1, frame, collected, (key, value) :: ps => by
    refine (prints_expression depth frame key).bind fun v ↦ ?_
    rw [requireKey]
    cases v.key? with
    | none => exact .halt _
    | some k =>
      exact (prints_expression depth frame value).bind fun w ↦ prints_entries depth frame _ ps

theorem prints_statement : ∀ depth frame (s : Stmt),
    Prints (statement depth frame s) (putsOfStatement depth frame s)
  | 0, _, _ => .exhaust
  | depth + 1, frame, .letStmt _ id e =>
    (prints_expression depth frame e).bind_silent fun v ↦
      (Prints.assign frame id.name v).bind_silent fun _ ↦ .pure _
  | _ + 1, _, .returnStmt _ none => .halt _
  | depth + 1, frame, .returnStmt _ (some e) =>
    (prints_expression depth frame e).bind_silent fun _ ↦ .halt _
  | depth + 1, frame, .exprStmt _ e => prints_expression depth frame e

theorem prints_statements : ∀ depth frame last (ss : List Stmt),
    Prints (statements depth frame last ss) (putsOfStatements depth frame ss)
  | 0, _, _, _ => .exhaust
  | _ + 1, _, _, [] => .pure _
  | depth + 1, frame, _, s :: ss =>
    (prints_statement depth frame s).bind fun v ↦ prints_statements depth frame v ss

theorem prints_apply : ∀ depth f arguments,
    Prints (apply depth f arguments) (putsOfApply depth f arguments)
  | 0, _, _ => .exhaust
  | depth + 1, .function f, arguments => by
    rw [apply, putsOfApply]
    split
    · exact (Prints.enter f arguments).bind fun frame ↦
        (prints_statements depth frame .null f.body.statements).boundary
    · exact .halt _
  | _ + 1, .builtin b, arguments => .callBuiltin b arguments
  | _ + 1, .int _, _ | _ + 1, .bool _, _ | _ + 1, .string _, _ | _ + 1, .array _, _
  | _ + 1, .hash _, _ | _ + 1, .null, _ => .halt _

end

end Eval

/-! ## Whole programs -/

/-- The calls of `puts` that a program makes.  The text that a program prints depends on the scope
that it runs in, on what is bound there, and on the bound of the depth if it is too small. -/
def Program.puts (depth : Nat) (scope : ScopeId) (p : Program) (m : Machine) : List (List Value) :=
  Eval.putsOfStatements depth ⟨scope, m.units⟩ p.statements { m with units := m.units + 1 }

/-- A `return` outside of all functions ends a program without printing. -/
theorem Outcome.unwound_withPrinted (text : String) (o : Outcome Signal Machine Value) :
    (o.withPrinted text).unwound = o.unwound.withPrinted text := by
  cases o with
  | done v m => rfl
  | stop signal m => cases signal <;> rfl
  | exhausted => rfl

/-- **A program prints the text of its calls of `puts`**, after what was printed before. -/
theorem Program.eval_withPrinted (depth : Nat) (scope : ScopeId) (p : Program) (m : Machine)
    (text : String) :
    p.eval depth scope (m.withPrinted text) =
      (p.eval depth scope m).withPrinted (text ++ putsText (p.puts depth scope m)) := by
  have hprints := Eval.prints_statements depth ⟨scope, m.units⟩ .null p.statements
    { m with units := m.units + 1 } text
  exact (congrArg Outcome.unwound hprints).trans (Outcome.unwound_withPrinted _ _)

end MonkeyLang
