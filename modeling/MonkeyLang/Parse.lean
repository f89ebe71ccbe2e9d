import MonkeyLang.Outcome
import MonkeyLang.Token.Stream
import MonkeyLang.Parse.Error
import MonkeyLang.Parse.Precedence

/-!
# Reading programs

A reader takes tokens off a stream one by one and never looks further than the next one.  Every
construct that fails to read records an error and is given up; what was read of it is dropped.  A
sequence of statements goes on after a statement that failed, with the first token that was not
taken yet.  So one text can give many errors, and the statements around them are kept.

Expressions are read by climbing precedences: `expression level` reads an operand and then goes on
as long as the next token binds tighter than `level`.

## Errors

A reader that gives up says nothing about why (`Action Unit`): the reason was recorded in the state
at the moment when it was found.  So errors that were found in a statement survive although the
statement itself does not, and `attempt`, which goes on after a failure, has nothing to pass on.
Going on is done in one place only, between statements.  Nothing is skipped there on purpose, and
the tokens that the failed statement did not take are read as the start of the next one.  A closing
brace that nobody asked for is read as an expression there, is found to start none, and is taken by
that.

## Depth

The functions recurse on a bound of their depth.  `Stream.parse` starts with a bound that depends
on the number of tokens only, and it never runs out: eight levels for each token are enough, as
`Parser.endsWithin_statements` shows.  A recursion on the number of tokens itself would need proofs
inside of the definitions, because some calls are made before any token is taken, and the
definitions would no longer evaluate by themselves.
-/

set_option autoImplicit false

namespace MonkeyLang
namespace Parser

/-! ## Readers

The basic readers are the only ones that touch the state.  All others are put together from them
with `do`, and every property of readers that is proved later is proved of these first. -/

/-- The tokens still to be taken, and the errors so far in the order of their discovery. -/
structure State where
  stream : Stream
  errors : List ParseError

end Parser

/-- A reader of tokens, which gives up without a reason of its own: the reason was recorded.
Giving up is how a reader tells its callers that nothing is to be made of what it read.  They give
up as well, up to the reader of statements. -/
abbrev Parser (α : Type) : Type := Action Unit Parser.State α

namespace Parser

open MonkeyLang.Action

/-- The next token, which stays in the stream.  At the end this is the end of the input, as often
as one looks. -/
@[inline]
def peek : Parser Token := look fun s ↦ s.stream.head

/-- Take the next token. -/
@[inline]
def take : Parser Token := fun s ↦ .done s.stream.head { s with stream := s.stream.tail }

/-- Record an error and give up. -/
@[inline]
def fail {α : Type} (e : ParseError) : Parser α := fun s ↦
  .stop () { s with errors := s.errors ++ [e] }

/-- Take the next token if it has the type `expected`; otherwise leave it and fail.  The token that
is left may be the start of the next statement, which is why it is not taken. -/
def expect (expected : TokenType) : Parser Token := do
  let t ← peek
  if t.type = expected then take else fail (.unexpectedToken expected t.type t.position)

/-- Take the next token if it has the type `wanted`. -/
def skipIf (wanted : TokenType) : Parser Unit := do
  let t ← peek
  if t.type = wanted then
    let _ ← take
    pure ()
  else
    pure ()

/-- Read something and go on in any case.  The errors that were recorded stay, and so does the
place that was reached. -/
@[inline]
def attempt {α : Type} (read : Parser α) : Parser (Option α) := fun s ↦
  match read s with
  | .done value s => .done (some value) s
  | .stop _ s => .done none s
  | .exhausted => .exhausted

/-- A name. -/
def identifier : Parser Identifier := do
  let t ← expect .ident
  pure ⟨t, t.literal⟩

/-- The error of a token that starts no expression.  A token that is wrong by itself is reported as
such, and not as one that stands in the wrong place. -/
def noOperand (t : Token) : ParseError :=
  match t.kind with
  | .illegal c => .illegalToken c t.position
  | .unterminated _ => .unterminatedString t.position
  | kind => .noExpression kind.type t.position

/-- The least natural number that is no signed 64-bit integer. -/
def integerLimit : Nat := 9223372036854775808

/-- The number that a numeral stands for, if it is a 64-bit integer. -/
def integer? (digits : String) : Option Int64 :=
  let n := Decimal.value digits.toList
  if n < integerLimit then some (Int64.ofNat n) else none

/-! ## Parameters -/

/-- The parameters after the first one, up to the closing parenthesis. -/
def moreParameters : Nat → Parser (List Identifier)
  | 0 => exhaust
  | depth + 1 => do
    let t ← peek
    if t.kind = .symbol .comma then
      let _ ← take
      let id ← identifier
      let rest ← moreParameters depth
      pure (id :: rest)
    else
      let _ ← expect (.symbol .rightParen)
      pure []

/-- The parameters of a function, after the opening parenthesis and up to the closing one. -/
def parameters (depth : Nat) : Parser (List Identifier) := do
  let t ← peek
  if t.kind = .symbol .rightParen then
    let _ ← take
    pure []
  else
    let id ← identifier
    let rest ← moreParameters depth
    pure (id :: rest)

/-! ## Expressions, statements and blocks -/

mutual

/-- An expression whose operators bind tighter than `level`. -/
def expression : Nat → Precedence → Parser Expr
  | 0, _ => exhaust
  | depth + 1, level => do
    let left ← operand depth
    climb depth level left

/-- What `left` grows to by continuations that bind tighter than `level`.  A loop in the form of a
recursion: it ends in front of the first token that does not bind tighter. -/
def climb : Nat → Precedence → Expr → Parser Expr
  | 0, _, _ => exhaust
  | depth + 1, level, left => do
    let t ← peek
    if level < Precedence.ofKind t.kind then
      match continuation? t.kind with
      | none => pure left
      | some way =>
        let _ ← take
        let longer ← continued depth way t left
        climb depth level longer
    else
      pure left

/-- One continuation of `left`, whose first token `t` was taken. -/
def continued : Nat → Continuation → Token → Expr → Parser Expr
  | 0, _, _, _ => exhaust
  | depth + 1, .operation, t, left =>
    match Operator.ofKind? t.kind with
    | none => halt ()
    | some op => do
      let right ← expression depth (Precedence.ofKind t.kind)
      pure (.binary t op left right)
  | depth + 1, .call, t, left => do
    let arguments ← expressions depth (.symbol .rightParen)
    pure (.call t left arguments)
  | depth + 1, .index, t, left => do
    let position ← expression depth .lowest
    let _ ← expect (.symbol .rightBracket)
    pure (.index t left position)

/-- An expression without continuations. -/
def operand : Nat → Parser Expr
  | 0 => exhaust
  | depth + 1 => do
    let t ← take
    match t.kind with
    | .ident name => pure (.ident ⟨t, name⟩)
    | .int digits =>
      match integer? digits with
      | some n => pure (.int t n)
      | none => fail (.invalidInteger digits t.position)
    | .string text => pure (.string t text)
    | .keyword .kwTrue => pure (.bool t true)
    | .keyword .kwFalse => pure (.bool t false)
    | .symbol .bang | .symbol .minus =>
      match Operator.ofKind? t.kind with
      | none => halt ()
      | some op =>
        let right ← expression depth .unary
        pure (.unary t op right)
    | .symbol .leftParen =>
      let inner ← expression depth .lowest
      let _ ← expect (.symbol .rightParen)
      pure inner
    | .keyword .kwIf => conditional depth t
    | .keyword .kwFunction =>
      let _ ← expect (.symbol .leftParen)
      let names ← parameters depth
      let brace ← expect (.symbol .leftBrace)
      let body ← block depth brace
      pure (.function t names body)
    | .symbol .leftBracket =>
      let elements ← expressions depth (.symbol .rightBracket)
      pure (.array t elements)
    | .symbol .leftBrace =>
      let entries ← pairs depth
      pure (.hash t entries)
    | _ => fail (noOperand t)

/-- A conditional, whose first token `t` was taken. -/
def conditional : Nat → Token → Parser Expr
  | 0, _ => exhaust
  | depth + 1, t => do
    let _ ← expect (.symbol .leftParen)
    let condition ← expression depth .lowest
    let _ ← expect (.symbol .rightParen)
    let brace ← expect (.symbol .leftBrace)
    let consequence ← block depth brace
    let next ← peek
    if next.kind = .keyword .kwElse then
      let _ ← take
      let brace ← expect (.symbol .leftBrace)
      let alternative ← block depth brace
      pure (.cond t condition consequence (some alternative))
    else
      pure (.cond t condition consequence none)

/-- Expressions with commas between them, up to the token `close`. -/
def expressions : Nat → TokenType → Parser (List Expr)
  | 0, _ => exhaust
  | depth + 1, close => do
    let t ← peek
    if t.type = close then
      let _ ← take
      pure []
    else
      let first ← expression depth .lowest
      let rest ← moreExpressions depth close
      pure (first :: rest)

/-- The expressions after the first one, up to the token `close`. -/
def moreExpressions : Nat → TokenType → Parser (List Expr)
  | 0, _ => exhaust
  | depth + 1, close => do
    let t ← peek
    if t.kind = .symbol .comma then
      let _ ← take
      let next ← expression depth .lowest
      let rest ← moreExpressions depth close
      pure (next :: rest)
    else
      let _ ← expect close
      pure []

/-- The pairs of a hash up to its closing brace, with commas between them; a comma may also stand
after the last one. -/
def pairs : Nat → Parser (List (Expr × Expr))
  | 0 => exhaust
  | depth + 1 => do
    let t ← peek
    if t.kind = .symbol .rightBrace then
      let _ ← take
      pure []
    else
      let key ← expression depth .lowest
      let _ ← expect (.symbol .colon)
      let value ← expression depth .lowest
      let next ← peek
      if next.kind = .symbol .rightBrace then
        let rest ← pairs depth
        pure ((key, value) :: rest)
      else
        let _ ← expect (.symbol .comma)
        let rest ← pairs depth
        pure ((key, value) :: rest)

/-- One statement, with the semicolon after it if there is one. -/
def statement : Nat → Parser Stmt
  | 0 => exhaust
  | depth + 1 => do
    let t ← peek
    match t.kind with
    | .keyword .kwLet =>
      let _ ← take
      let id ← identifier
      let _ ← expect (.symbol .assign)
      let value ← expression depth .lowest
      skipIf (.symbol .semicolon)
      pure (.letStmt t id value)
    | .keyword .kwReturn =>
      let _ ← take
      let next ← peek
      if next.kind = .symbol .semicolon ∨ next.kind = .symbol .rightBrace ∨ next.kind = .eof then
        skipIf (.symbol .semicolon)
        pure (.returnStmt t none)
      else
        let value ← expression depth .lowest
        skipIf (.symbol .semicolon)
        pure (.returnStmt t (some value))
    | _ =>
      let e ← expression depth .lowest
      skipIf (.symbol .semicolon)
      pure (.exprStmt e.token e)

/-- Statements up to the end of the input or, inside a block, up to its closing brace.  A statement
that fails is left out. -/
def statements : Nat → Bool → Parser (List Stmt)
  | 0, _ => exhaust
  | depth + 1, inBlock => do
    let t ← peek
    if t.kind = .eof ∨ (inBlock = true ∧ t.kind = .symbol .rightBrace) then
      pure []
    else
      let first ← attempt (statement depth)
      let rest ← statements depth inBlock
      pure (first.toList ++ rest)

/-- A block, whose opening brace was taken. -/
def block : Nat → Token → Parser Block
  | 0, _ => exhaust
  | depth + 1, brace => do
    let body ← statements depth true
    let t ← take
    if t.kind = .eof then
      fail (.unexpectedToken (.symbol .rightBrace) .eof t.position)
    else
      pure ⟨brace, body⟩

end

end Parser

/-! ## Whole programs -/

/-- What was read of a text: the statements that could be read, and what was wrong with the
others. -/
structure Parsed where
  program : Program
  errors : List ParseError

/-- A depth of recursion that no reader of these tokens exceeds. -/
def Stream.depth (s : Stream) : Nat := 8 * (s.pending.length + 1)

/-- The program that a stream of tokens holds. -/
def Stream.parse (s : Stream) : Parsed :=
  match Parser.statements s.depth false ⟨s, []⟩ with
  | .done statements state => ⟨⟨statements⟩, state.errors⟩
  | .stop _ state => ⟨⟨[]⟩, state.errors⟩
  | .exhausted => ⟨⟨[]⟩, []⟩

/-- The program that a text holds. -/
def parse (text : String) : Parsed := (Cursor.ofText text).stream.parse

/-- The program that a text holds if nothing is wrong with it.  This is what running a text uses.
-/
def parseProgram (text : String) : Except (List ParseError) Program :=
  let parsed := parse text
  if parsed.errors.isEmpty then .ok parsed.program else .error parsed.errors

end MonkeyLang
