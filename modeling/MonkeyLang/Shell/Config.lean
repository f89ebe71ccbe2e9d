import MonkeyLang.Text.LetterCase

/-!
# Settings of the shell

The settings come from variables of the surroundings, each of which may be missing.  The
surroundings are a function from names to texts, so that the settings can be computed and spoken
about without them.

A variable that is there counts even if it is empty, in two of the three cases.  An empty prompt is
a prompt, and tokens are shown as soon as the variable for them is set to anything.  An empty name
is no name, on the other hand, and it also hides the second one.
-/

set_option autoImplicit false

namespace MonkeyLang

/-- The settings of the shell. -/
structure Config where
  /-- What is written before each line is read. -/
  prompt : String
  /-- Whether lines are answered with their tokens instead of being run. -/
  showTokens : Bool
  /-- Whom to greet. -/
  user : Option String
deriving DecidableEq

namespace Config

/-- The settings when no variable is set. -/
def standard : Config := ⟨">> ", false, none⟩

/-- The settings from variables.  The second name for the user counts only if the first is not set
at all; an empty name is none. -/
def ofVariables (getVar : String → Option String) : Config where
  prompt := (getVar "MONKEY_PROMPT").getD standard.prompt
  showTokens := (getVar "MONKEY_TOKENS").isSome
  user := ((getVar "USER").or (getVar "USERNAME")).filter fun name ↦ name != ""

/-- The first line of the shell. -/
def greeting (config : Config) : String :=
  match config.user with
  | some user => "Hello " ++ titleCase user ++ "! This is the Monkey programming language!"
  | none => "Hello! This is the Monkey programming language!"

end Config

end MonkeyLang
