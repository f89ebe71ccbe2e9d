import MonkeyLang.Token

/-!
# What can be wrong with a program text

Every error names its place.  `ParseError.message` is the only place that knows the wording.

Three of the five errors are about one token and its text: a numeral that is too large, a character
that starts no token, and a string without an end.  The other two are about a token that may be
perfectly good and stands in the wrong place.  They name types of tokens only, since the text of
the token would not help.

The place is always that of the token that was found, never that of the construct which could not
be read.  So the errors of one text can be ordered and compared by their places alone.
-/

set_option autoImplicit false

namespace MonkeyLang

/-- The ways in which a program text can fail to be a program. -/
inductive ParseError where
  /-- Another token had to stand here. -/
  | unexpectedToken (expected found : TokenType) (position : Position)
  /-- No expression starts with this token. -/
  | noExpression (found : TokenType) (position : Position)
  /-- The number is too large. -/
  | invalidInteger (digits : String) (position : Position)
  /-- The character starts no token. -/
  | illegalToken (char : Char) (position : Position)
  /-- The closing quote is missing. -/
  | unterminatedString (position : Position)
deriving DecidableEq

namespace ParseError

/-- Where the error is. -/
def position : ParseError → Position
  | unexpectedToken _ _ p | noExpression _ p | invalidInteger _ p | illegalToken _ p
  | unterminatedString p => p

/-- What the error is, without its place. -/
def description : ParseError → String
  | unexpectedToken expected found _ =>
    "expected next token to be " ++ expected.name ++ ", got " ++ found.name ++ " instead"
  | noExpression found _ => "no prefix parse function for " ++ found.name ++ " found"
  | invalidInteger digits _ => "could not parse " ++ digits ++ " as integer"
  | illegalToken c _ => "illegal token '" ++ String.singleton c ++ "'"
  | unterminatedString _ => "unterminated string literal"

/-- The error as the user sees it. -/
def message (e : ParseError) : String := e.position.text ++ ": " ++ e.description

end ParseError

end MonkeyLang
