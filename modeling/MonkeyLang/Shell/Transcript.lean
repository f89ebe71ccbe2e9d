import MonkeyLang.Session
import MonkeyLang.Shell.Config

/-!
# Conversations with the shell

The shell reads lines of bytes.  For each of them it writes the prompt, reads the line, and writes
its answer.  When the lines are used up it has written one last prompt.  A line that is no valid
UTF-8 ends the conversation after its prompt.

`Transcript` is all that the shell writes, and why it stopped if that was not the end of its input.

## Design

The input is the whole list of bytes, and not a channel that is asked for more, since what the
shell writes depends on the bytes alone and never on when they came.  Each line is decoded by
itself: a character cannot be cut in two by a line feed in valid UTF-8, and a line that is not
valid is the end of the conversation even if all lines after it are good.

What a program prints goes to a buffer in the machine, and the answer to its line takes it from
there.  So the printed text comes before the value or the error of the program, in one piece, and
the buffer is empty whenever a prompt is written.

An answer never stops early.  The reason for that is in its type: `Action Empty` has no reasons.  A
bound on the depth that runs out is the one thing that can keep an answer from being given.
-/

set_option autoImplicit false

namespace MonkeyLang

/-- Why a line could not be read. -/
inductive ReadError where
  | invalidUtf8
deriving DecidableEq

/-- The error as the user sees it. -/
def ReadError.message : ReadError → String
  | invalidUtf8 => "stream did not contain valid UTF-8"

/-- What the shell wrote, and why it stopped before the end of its input. -/
structure Transcript where
  output : String
  failure : Option ReadError

namespace Shell

/-! ## Answers to lines -/

/-- A token as the shell shows it. -/
def tokenLine (t : Token) : String :=
  t.type.name ++ " " ++ quoted t.literal ++ " @ " ++ t.position.text ++ "\n"

/-- Texts one after the other. -/
def concatenated (texts : List String) : String := texts.foldl (· ++ ·) ""

/-- The answer to a line with errors. -/
def errorLines (errors : List ParseError) : String :=
  "parser errors:\n" ++ concatenated (errors.map fun e ↦ "\t" ++ e.message ++ "\n")

/-- The answer to a program that gave a value: nothing if there was nothing to run, or if all that
was done last is a binding. -/
def valueLine (p : Program) (value : Value) : String :=
  if (value.type = .null ∧ p.endsWithLet = true) ∨ p.statements.isEmpty = true then ""
  else value.display ++ "\n"

/-- The answer to a line.  What the program prints comes first. -/
def answer (depth : Nat) (config : Config) (scope : ScopeId) (line : String) :
    Action Empty Machine String := fun m ↦
  if config.showTokens then .done (concatenated ((tokenize line).map tokenLine)) m
  else
    match parseProgram line with
    | .error errors => .done (errorLines errors) m
    | .ok program =>
      match program.eval depth scope m with
      | .done value m => .done (m.printed ++ valueLine program value) m.takePrinted.2
      | .stop e m => .done (m.printed ++ "ERROR: " ++ e.message ++ "\n") m.takePrinted.2
      | .exhausted => .exhausted

/-! ## Whole conversations -/

/-- Cut bytes into lines after each line feed. -/
def lines : List UInt8 → List (List UInt8)
  | [] => []
  | b :: rest =>
    if b = 10 then [b] :: lines rest
    else
      match lines rest with
      | [] => [[b]]
      | line :: later => (b :: line) :: later

/-- The text that a line holds. -/
def decode? (line : List UInt8) : Option String := String.fromUTF8? ⟨line.toArray⟩

/-- Answer lines one after the other. -/
def converse (depth : Nat) (config : Config) (scope : ScopeId) :
    List (List UInt8) → Action Empty Machine Transcript
  | [] => pure ⟨config.prompt, none⟩
  | line :: rest =>
    match decode? line with
    | none => pure ⟨config.prompt, some .invalidUtf8⟩
    | some text => do
      let shown ← answer depth config scope text
      let later ← converse depth config scope rest
      pure ⟨config.prompt ++ shown ++ later.output, later.failure⟩

/-- A conversation in a scope of its own.  Text printed earlier is thrown away. -/
def start (depth : Nat) (config : Config) (input : List UInt8) :
    Action Empty Machine Transcript := fun m ↦
  let (scope, m) := m.newShellScope
  converse depth config scope (lines input) m.takePrinted.2

/-! ## The shell as a program -/

/-- What a program writes to its two outputs, and its exit code. -/
structure Report where
  output : String
  errors : String
  exitCode : Nat
deriving DecidableEq

/-- What the shell writes before the first prompt. -/
def banner (config : Config) : String :=
  config.greeting ++ "\nFeel free to type in commands\n"

/-- What the shell writes to its error output when it could not read a line. -/
def failureText (e : ReadError) : String := "monkey: " ++ e.message ++ "\n"

/-- All that the shell does with its input. -/
def report (depth : Nat) (config : Config) (input : List UInt8) : Option Report :=
  match start depth config input .initial with
  | .done ⟨output, none⟩ _ => some ⟨banner config ++ output, "", 0⟩
  | .done ⟨output, some e⟩ _ => some ⟨banner config ++ output, failureText e, 1⟩
  | .exhausted => none

end Shell

end MonkeyLang
