import MonkeyLang.Eval
import MonkeyLang.Parse
import MonkeyLang.Text.Quoted

/-!
# Sessions

A session runs program texts one after the other in scopes of one machine.  `run` reads a text and
runs it if nothing is wrong with it; a text with errors changes nothing.  Bindings made before a
run failed stay.

Whoever uses a session has the numbers of scopes as handles, and the few functions of `Machine` to
work with them: make a scope, bind a name, look one up, take the text that was printed.  All of
them go through the machine, and none can fail.  Nothing is said here about handles that do not
belong to the machine; a number that is no scope yet sees no bindings, and binding a name there
does nothing.

## Depth

A run has a bound on its depth as an argument, as every evaluation has.  The drivers pass
`ampleDepth`, which stands for no bound: recursion that deep does not fit into memory.  A run that
would need more is exhausted, and what a driver should do then is left open.

## Names and builtin functions

Builtin functions that all programs know are not bound in any scope, so a new scope is empty, and
`Machine.get?` does not find them.  `puts` is different.  It belongs to the shell, and is bound in
the scope that a shell starts with.  A program that is run elsewhere does not have it unless
somebody binds it.
-/

set_option autoImplicit false

namespace MonkeyLang

/-- Why running a text gave no value. -/
inductive RunError where
  | parse (errors : List ParseError)
  | eval (error : EvalError)
deriving DecidableEq

/-- The error as the user sees it; parse errors stand on indented lines. -/
def RunError.message : RunError → String
  | parse errors => errors.foldl (fun text e ↦ text ++ "\n\t" ++ e.message) "parser errors:"
  | eval e => e.message

/-- Read a text and run it in a scope.  A text with any parse error is not run at all, although the
statements that could be read are there. -/
def run (depth : Nat) (scope : ScopeId) (text : String) : Action RunError Machine Value := fun m ↦
  match parseProgram text with
  | .error errors => .stop (.parse errors) m
  | .ok program => (program.eval depth scope m).mapReason .eval

/-- A depth of recursion beyond what the memory of a computer can hold. -/
def ampleDepth : Nat := 1000000000

namespace Machine

/-- A new scope inside another one, or inside none. -/
def newScope (m : Machine) (outer : Option ScopeId) : ScopeId × Machine :=
  (m.store.size, { m with store := m.store.add ⟨[], outer⟩ })

/-- Bind a name in a scope. -/
def set (m : Machine) (scope : ScopeId) (name : String) (value : Value) : Machine :=
  { m with store := m.store.bind scope name value }

/-- The value of a name seen from a scope.  Builtin functions are not bound anywhere. -/
def get? (m : Machine) (scope : ScopeId) (name : String) : Option Value :=
  m.store.lookup scope name

/-- A new scope with what only a shell offers bound in it.  That `puts` is bound there, and is no
name that every program knows, is all that makes a shell different. -/
def newShellScope (m : Machine) : ScopeId × Machine :=
  let (scope, m) := m.newScope none
  (scope, m.set scope Builtin.puts.name (.builtin .puts))

/-- Take the text that was printed.  Whoever runs a text collects what it printed before running
the next one. -/
def takePrinted (m : Machine) : String × Machine := (m.printed, { m with printed := "" })

end Machine

/-- A scope as diagnostics show it: the names bound in it, in order, and whether it stands inside
another one.  Values are left out, because a scope can hold functions that refer to it. -/
def Scope.describe (scope : Scope) : String :=
  "Environment \x7b names: [" ++ separated ", " ((Dict.keys scope.bindings).map quoted) ++
    "], enclosed: " ++ boolText scope.outer.isSome ++ " \x7d"

end MonkeyLang
