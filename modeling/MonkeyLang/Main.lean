import MonkeyLang.Benchmark
import MonkeyLang.Shell.Transcript

/-!
# The command line

Without arguments this is the interactive shell.  With `benchmark` as the first argument it
measures the benchmark for the number in the second one.

Only this module reads and writes.  It takes the input line by line and passes each line on; what
the shell answers is decided by `Shell.answer`, a function without effects, and what a whole
session prints is `Shell.converse`.  The two loops here are `partial`, since a conversation may go
on forever, and nothing is proved about them.  They are kept so short that reading them is enough.
-/

set_option autoImplicit false

namespace MonkeyLang

/-- One line of bytes with its line feed; nothing at the end of the input. -/
partial def readLine (input : IO.FS.Stream) (line : List UInt8) : IO (List UInt8) := do
  let bytes ← input.read 1
  match bytes.toList with
  | [] => return line.reverse
  | b :: _ => if b = 10 then return (b :: line).reverse else readLine input (b :: line)

/-- Answer lines until the input ends. -/
partial def interact (config : Config) (scope : ScopeId) (m : Machine) : IO UInt32 := do
  let output ← IO.getStdout
  output.putStr config.prompt
  output.flush
  let line ← readLine (← IO.getStdin) []
  if line.isEmpty then return 0
  match Shell.decode? line with
  | none =>
    IO.eprint (Shell.failureText .invalidUtf8)
    return 1
  | some text =>
    match Shell.answer ampleDepth config scope text m with
    | .done shown m =>
      output.putStr shown
      interact config scope m
    | .exhausted => return 1

/-- The interactive shell. -/
def shell : IO UInt32 := do
  let prompt ← IO.getEnv "MONKEY_PROMPT"
  let tokens ← IO.getEnv "MONKEY_TOKENS"
  let user ← IO.getEnv "USER"
  let username ← IO.getEnv "USERNAME"
  let config := Config.ofVariables fun name ↦
    match name with
    | "MONKEY_PROMPT" => prompt
    | "MONKEY_TOKENS" => tokens
    | "USER" => user
    | "USERNAME" => username
    | _ => none
  IO.print (Shell.banner config)
  let (scope, m) := Machine.initial.newShellScope
  interact config scope m

/-- The benchmark. -/
def benchmark (arguments : List String) : IO UInt32 := do
  let n := Benchmark.number arguments
  let before ← IO.monoNanosNow
  match Benchmark.measure ampleDepth n with
  | .done value _ =>
    let after ← IO.monoNanosNow
    let seconds := Float.ofNat (after - before) / 1000000000.0
    IO.println (Benchmark.summary n value ++ ", duration=" ++ toString seconds)
  | .stop e _ => IO.eprintln ("ERROR: " ++ e.message)
  | .exhausted => pure ()
  return 0

end MonkeyLang

/-- The command line. -/
def main (arguments : List String) : IO UInt32 :=
  match arguments with
  | "benchmark" :: rest => MonkeyLang.benchmark rest
  | _ => MonkeyLang.shell
