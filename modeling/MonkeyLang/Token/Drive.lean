import MonkeyLang.Parse
import MonkeyLang.Token.Lexer

/-!
# Driving a lexer

The steps that can be taken with one lexer, in any order, and the answer of each.  Reading the
program that is left works on a copy of the cursor, so it does not move the lexer.

A list of steps stands for a program that uses the lexer: whatever the program decides on the way,
it has taken some list of steps in the end.  So a property of `Lexer.drive` for all lists is one of
every such program.
-/

set_option autoImplicit false

namespace MonkeyLang
namespace Lexer

/-- The steps that can be taken with a lexer. -/
inductive Step where
  | next | nextToken | drain | reset | parse
deriving DecidableEq

/-- The answer of a step. -/
inductive Answer where
  | token (token : Option Token)
  | tokens (tokens : List Token)
  | restarted
  | parsed (parsed : Parsed)

/-- Take one step. -/
def step (l : Lexer) : Step → Answer × Lexer
  | .next => (.token l.next?.1, l.next?.2)
  | .nextToken => (.token (some l.nextToken.1), l.nextToken.2)
  | .drain => (.tokens l.drain.1, l.drain.2)
  | .reset => (.restarted, l.reset)
  | .parse => (.parsed l.cursor.stream.parse, l)

/-- Take steps one after the other. -/
def drive (l : Lexer) : List Step → List Answer × Lexer
  | [] => ([], l)
  | s :: rest =>
    let (answer, l) := l.step s
    let (answers, l) := drive l rest
    (answer :: answers, l)

end Lexer
end MonkeyLang
