import MonkeyLang.Text.Decimal

/-!
# Tokens

A source text is a sequence of tokens with blanks between them.

* `TokenKind` is what a token is, together with its text where more than one text is possible.
  `TokenKind.literal` is that text, without the quotes of a string, and `TokenKind.spelling` is how
  the token stands in the source.
* `TokenType` forgets the text.  It is what an error message names.
* `Token` adds the `Position` of the first character.  Positions serve diagnostics only:
  `Token.sameKind` compares tokens without them.

Texts that hold no token are not errors of the scanner.  A character that starts no token is a
token of its own kind, and so is a string without its closing quote.  Both go through the reader
like any other token, which reports them where it meets them.  So scanning never fails, every
character of a text outside of blanks belongs to one token, and the order of the errors is that of
the tokens.

The kinds of symbols and of keywords are enumerations, and their spellings are given by functions
into strings.  A table would hold the same information; the functions let a proof go through the
cases and compute.
-/

set_option autoImplicit false

namespace MonkeyLang

/-! ## Positions -/

/-- A place in a source text.  Lines and columns of a text start at one, and columns count
characters. -/
structure Position where
  line : Nat
  column : Nat
deriving DecidableEq

namespace Position

/-- Where a text starts. -/
def start : Position := ⟨1, 1⟩

/-- One column further on the same line. -/
def right (p : Position) : Position := ⟨p.line, p.column + 1⟩

/-- The place after the character `c` at `p`. -/
def step (p : Position) (c : Char) : Position :=
  if c = '\n' then ⟨p.line + 1, 1⟩ else p.right

/-- The place after the characters `cs`, the first of which stands at `p`.  Character by character,
so that lines are counted as they come. -/
def advance (p : Position) (cs : List Char) : Position := cs.foldl step p

/-- A position as messages write it, `line:column`. -/
def text (p : Position) : String := Decimal.ofNat p.line ++ ":" ++ Decimal.ofNat p.column

@[simp]
theorem advance_nil (p : Position) : p.advance [] = p := rfl

@[simp]
theorem advance_cons (p : Position) (c : Char) (cs : List Char) :
    p.advance (c :: cs) = (p.step c).advance cs := rfl

theorem advance_append (p : Position) (cs ds : List Char) :
    p.advance (cs ++ ds) = (p.advance cs).advance ds := by
  simp [advance]

end Position

/-! ## Symbols and keywords -/

/-- The tokens made of punctuation.  All are single characters but two, which end with an equals
sign. -/
inductive Symbol where
  | assign | plus | minus | slash | asterisk | bang | less | greater | equal | notEqual
  | comma | semicolon | colon
  | leftParen | rightParen | leftBrace | rightBrace | leftBracket | rightBracket
deriving DecidableEq

namespace Symbol

/-- How a symbol is written. -/
def spelling : Symbol → String
  | assign => "="
  | plus => "+"
  | minus => "-"
  | slash => "/"
  | asterisk => "*"
  | bang => "!"
  | less => "<"
  | greater => ">"
  | equal => "=="
  | notEqual => "!="
  | comma => ","
  | semicolon => ";"
  | colon => ":"
  | leftParen => "("
  | rightParen => ")"
  | leftBrace => "\x7b"
  | rightBrace => "\x7d"
  | leftBracket => "["
  | rightBracket => "]"

/-- What messages call a symbol. -/
def name : Symbol → String
  | assign => "Assign"
  | plus => "Plus"
  | minus => "Minus"
  | slash => "Slash"
  | asterisk => "Asterisk"
  | bang => "Bang"
  | less => "LT"
  | greater => "GT"
  | equal => "Eq"
  | notEqual => "NotEq"
  | comma => "Comma"
  | semicolon => "Semicolon"
  | colon => "Colon"
  | leftParen => "LParen"
  | rightParen => "RParen"
  | leftBrace => "LBrace"
  | rightBrace => "RBrace"
  | leftBracket => "LBracket"
  | rightBracket => "RBracket"

/-- The symbol that is written with the one character `c`. -/
def ofChar? : Char → Option Symbol
  | '=' => some assign
  | '+' => some plus
  | '-' => some minus
  | '/' => some slash
  | '*' => some asterisk
  | '!' => some bang
  | '<' => some less
  | '>' => some greater
  | ',' => some comma
  | ';' => some semicolon
  | ':' => some colon
  | '(' => some leftParen
  | ')' => some rightParen
  | '\x7b' => some leftBrace
  | '\x7d' => some rightBrace
  | '[' => some leftBracket
  | ']' => some rightBracket
  | _ => none

/-- The symbol that a symbol turns into when an equals sign follows directly.  Only two symbols do.
-/
def beforeEquals? : Symbol → Option Symbol
  | assign => some equal
  | bang => some notEqual
  | _ => none

end Symbol

/-- The words of the language that cannot be identifiers. -/
inductive Keyword where
  | kwElse | kwFalse | kwFunction | kwIf | kwLet | kwReturn | kwTrue
deriving DecidableEq

namespace Keyword

/-- How a keyword is written. -/
def spelling : Keyword → String
  | kwElse => "else"
  | kwFalse => "false"
  | kwFunction => "fn"
  | kwIf => "if"
  | kwLet => "let"
  | kwReturn => "return"
  | kwTrue => "true"

/-- What messages call a keyword. -/
def name : Keyword → String
  | kwElse => "Else"
  | kwFalse => "False"
  | kwFunction => "Function"
  | kwIf => "If"
  | kwLet => "Let"
  | kwReturn => "Return"
  | kwTrue => "True"

/-- The keyword that a word is, if it is one.  In all other respects a keyword is a word like any
other, so a word has to be read to its end before it can be told which it is. -/
def ofWord? (word : String) : Option Keyword :=
  [kwLet, kwFunction, kwIf, kwReturn, kwTrue, kwElse, kwFalse].find? fun k ↦ k.spelling == word

theorem ofWord?_spelling (k : Keyword) : ofWord? k.spelling = some k := by
  cases k <;> decide

theorem spelling_of_ofWord? {word : String} {k : Keyword} (h : ofWord? word = some k) :
    k.spelling = word := by
  have := List.find?_some h
  simpa using this

end Keyword

/-! ## Kinds and types

A kind determines its type, its text and its spelling.  The reader compares types where it expects
a token and kinds where it needs the text, and messages show types only. -/

/-- What a token is, with its text where that is not fixed.  The text of a string leaves out the
quotes, and an unterminated string holds all that follows its opening quote. -/
inductive TokenKind where
  | illegal (char : Char)
  | unterminated (text : String)
  | eof
  | ident (name : String)
  | int (digits : String)
  | string (text : String)
  | symbol (symbol : Symbol)
  | keyword (keyword : Keyword)
deriving DecidableEq

/-- What a token is, without its text.  Messages about a token that was expected or found only tell
its type. -/
inductive TokenType where
  | illegal | unterminated | eof | ident | int | string
  | symbol (symbol : Symbol)
  | keyword (keyword : Keyword)
deriving DecidableEq

namespace TokenType

/-- What messages call a token. -/
def name : TokenType → String
  | illegal => "Illegal"
  | unterminated => "Unterminated"
  | eof => "Eof"
  | ident => "Ident"
  | int => "Int"
  | string => "String"
  | symbol s => s.name
  | keyword k => k.name

end TokenType

namespace TokenKind

/-- The keyword or identifier that a word is. -/
def ofWord (word : String) : TokenKind :=
  match Keyword.ofWord? word with
  | some k => keyword k
  | none => ident word

/-- The type of a token of this kind. -/
def type : TokenKind → TokenType
  | illegal _ => .illegal
  | unterminated _ => .unterminated
  | eof => .eof
  | ident _ => .ident
  | int _ => .int
  | string _ => .string
  | symbol s => .symbol s
  | keyword k => .keyword k

/-- The text of a kind whose tokens can have different texts. -/
def payload? : TokenKind → Option String
  | illegal c => some (String.singleton c)
  | unterminated text => some text
  | ident name => some name
  | int digits => some digits
  | string text => some text
  | eof | symbol _ | keyword _ => none

/-- The text of a token, without the quotes of a string; nothing for the end of the input. -/
def literal : TokenKind → String
  | illegal c => String.singleton c
  | unterminated text => text
  | eof => ""
  | ident name => name
  | int digits => digits
  | string text => text
  | symbol s => s.spelling
  | keyword k => k.spelling

/-- The characters of a token in its source.  For every kind of token but the end of the input this
is what the lexer has passed over. -/
def spelling : TokenKind → List Char
  | string text => '"' :: (text.toList ++ ['"'])
  | unterminated text => '"' :: text.toList
  | kind => kind.literal.toList

@[simp]
theorem spelling_ofWord (word : String) : (ofWord word).spelling = word.toList := by
  unfold ofWord
  split
  · rename_i k h
    simp [spelling, literal, Keyword.spelling_of_ofWord? h]
  · rfl

end TokenKind

/-! ## Tokens -/

/-- A token and the place of its first character. -/
structure Token where
  kind : TokenKind
  position : Position
deriving DecidableEq

namespace Token

/-- The type of a token. -/
def type (t : Token) : TokenType := t.kind.type

/-- The text of a token. -/
def literal (t : Token) : String := t.kind.literal

/-- The end of the input, seen at `p`. -/
def eof (p : Position) : Token := ⟨.eof, p⟩

/-- Whether two tokens are the same up to their places.  The kind has the text of a token in it, so
that two names are the same only if they are the same name. -/
def sameKind (a b : Token) : Bool := a.kind == b.kind

@[simp]
theorem sameKind_iff (a b : Token) : a.sameKind b = true ↔ a.kind = b.kind := by
  simp [sameKind]

end Token

/-- Whether two lists hold the same tokens up to their places. -/
def sameTokens : List Token → List Token → Bool
  | [], [] => true
  | a :: as, b :: bs => a.sameKind b && sameTokens as bs
  | _, _ => false

theorem sameTokens_iff (as bs : List Token) :
    sameTokens as bs = true ↔ as.map Token.kind = bs.map Token.kind := by
  induction as generalizing bs with
  | nil => cases bs <;> simp [sameTokens]
  | cons a as ih => cases bs <;> simp [sameTokens, ih]

end MonkeyLang
