import MonkeyLang.Token

/-!
# Reading tokens off bytes

The tokens of a text can also be read off its UTF-8 bytes, with one byte of lookahead and without
decoding characters on the way.  This works because every byte that the reader tests for is an
ASCII character, and no byte of a longer character is one.

A `ByteReader` stands on a byte, which counts as zero past the end.  Texts of tokens are slices of
the whole text; `ByteReader.slice?` fails when an end of a slice is out of range or inside a
character, and with it `ByteReader.nextToken?` fails.

## Why there are two readers

`scan` works on characters and is the one that everything else is about.  The reader here is closer
to a machine: it moves over bytes, keeps two indexes, and counts columns by leaving out the bytes
that continue a character.  Its slices could fail, its tests could mistake a part of a character
for a character, and its counts could drift.  That none of this happens is `calls_agree`, which
puts the two readers side by side.

The loops have a bound on the number of bytes, which is more than there are.  A zero byte in the
text looks like the end of the text to a test of the current byte, so the end is told by the index
as well.
-/

set_option autoImplicit false

namespace MonkeyLang

/-- Whether a byte continues a character of several bytes. -/
def isContinuation (b : UInt8) : Bool := b &&& 0xC0 == 0x80

/-- Whether a byte is an ASCII letter or the underscore. -/
def isLetterByte (b : UInt8) : Bool :=
  (decide (0x41 ≤ b) && decide (b ≤ 0x5A)) || (decide (0x61 ≤ b) && decide (b ≤ 0x7A)) || b == 0x5F

/-- Whether a byte is an ASCII digit. -/
def isDigitByte (b : UInt8) : Bool := decide (0x30 ≤ b) && decide (b ≤ 0x39)

/-- Whether a byte is a space, tab, line feed or carriage return. -/
def isBlankByte (b : UInt8) : Bool := b == 0x20 || b == 0x09 || b == 0x0A || b == 0x0D

/-- A text and where a reader of its bytes stands. -/
structure ByteReader where
  text : String
  /-- The index of the current byte. -/
  position : Nat
  /-- The index of the byte to be read next. -/
  readPosition : Nat
  /-- The current byte; zero past the end. -/
  byte : UInt8
  line : Nat
  column : Nat
  /-- Whether the finite sequence of tokens has ended. -/
  finished : Bool

namespace ByteReader

/-- The number of bytes of the text. -/
def size (r : ByteReader) : Nat := r.text.utf8ByteSize

/-- The byte at an index; zero past the end. -/
def byteAt (text : String) (i : Nat) : UInt8 := (text.toUTF8.data[i]?).getD 0

/-! ## Moving -/

/-- Go on to the next byte. -/
def advance (r : ByteReader) : ByteReader :=
  let byte := byteAt r.text r.readPosition
  let line := if r.byte = 0x0A then r.line + 1 else r.line
  let column := if r.byte = 0x0A then 0 else r.column
  { r with
    position := r.readPosition
    readPosition := r.readPosition + 1
    byte := byte
    line := line
    column := if isContinuation byte then column else column + 1 }

/-- A reader on the first byte of a text. -/
def ofText (text : String) : ByteReader := advance ⟨text, 0, 0, 0, 1, 0, false⟩

/-- Back to the first byte. -/
def reset (r : ByteReader) : ByteReader := ofText r.text

/-- The byte after the current one. -/
def peek (r : ByteReader) : UInt8 := byteAt r.text r.readPosition

/-- Whether no byte is left. -/
def atEnd (r : ByteReader) : Bool := decide (r.size ≤ r.position)

/-- Go on `n` times. -/
def advanceBy (r : ByteReader) : Nat → ByteReader
  | 0 => r
  | n + 1 => r.advance.advanceBy n

/-- Go on over the bytes of a class, at most `limit` of them. -/
def skipWhile (accepts : UInt8 → Bool) (r : ByteReader) : Nat → ByteReader
  | 0 => r
  | limit + 1 => if accepts r.byte then skipWhile accepts r.advance limit else r

/-- Go on to the next quote, or to the end, over at most `limit` bytes. -/
def skipToQuote (r : ByteReader) : Nat → ByteReader
  | 0 => r
  | limit + 1 => if r.atEnd || r.byte == 0x22 then r else skipToQuote r.advance limit

/-! ## Slices -/

/-- Whether a character starts at an index, or the text ends there. -/
def isBoundary (text : String) (i : Nat) : Bool :=
  i == text.utf8ByteSize || (decide (i < text.utf8ByteSize) && !isContinuation (byteAt text i))

/-- The part of a text between two indexes. -/
def slice? (text : String) (start stop : Nat) : Option String :=
  if start ≤ stop ∧ stop ≤ text.utf8ByteSize ∧ isBoundary text start = true ∧
      isBoundary text stop = true then
    String.fromUTF8? (text.toUTF8.extract start stop)
  else
    none

/-! ## Tokens -/

/-- A token and the reader after it. -/
abbrev Reading : Type := Token × ByteReader

/-- Go on over the bytes of a class and cut out what they spell. -/
def readRun? (accepts : UInt8 → Bool) (r : ByteReader) : Option (String × ByteReader) :=
  let after := r.skipWhile accepts (r.size + 1)
  (slice? r.text r.position after.position).map fun text ↦ (text, after)

/-- The string whose opening quote is the current byte. -/
def readString? (r : ByteReader) : Option (TokenKind × ByteReader) :=
  let after := r.advance.skipToQuote (r.size + 1)
  if after.atEnd then
    (slice? r.text (r.position + 1) r.size).map fun text ↦ (.unterminated text, after)
  else
    (slice? r.text (r.position + 1) after.position).map fun text ↦ (.string text, after.advance)

/-- What is read when the text from the current byte on has no first character. -/
def replacementChar : Char := '\uFFFD'

/-- The character at the current byte, which starts no token. -/
def readIllegal? (r : ByteReader) : Option (TokenKind × ByteReader) :=
  (slice? r.text r.position r.size).map fun rest ↦
    let c := rest.toList.headD replacementChar
    (.illegal c, r.advanceBy c.utf8Size)

/-- The symbol that the current byte starts. -/
def readSymbol? (r : ByteReader) : Option (TokenKind × ByteReader) :=
  match Symbol.ofChar? (Char.ofNat r.byte.toNat) with
  | none => none
  | some s =>
    match s.beforeEquals? with
    | some longer =>
      if r.peek = 0x3D then some (.symbol longer, r.advance.advance)
      else some (.symbol s, r.advance)
    | none => some (.symbol s, r.advance)

/-- The token that starts at the current byte, which is no blank. -/
def readToken? (r : ByteReader) : Option (TokenKind × ByteReader) :=
  match r.readSymbol? with
  | some reading => some reading
  | none =>
    if r.byte = 0x22 then r.readString?
    else if r.byte = 0 ∧ r.atEnd = true then some (.eof, r.advance)
    else if isLetterByte r.byte then
      (r.readRun? isLetterByte).map fun (word, after) ↦ (.ofWord word, after)
    else if isDigitByte r.byte then
      (r.readRun? isDigitByte).map fun (digits, after) ↦ (.int digits, after)
    else r.readIllegal?

/-- The next token, after blanks. -/
def nextToken? (r : ByteReader) : Option Reading :=
  let start := r.skipWhile isBlankByte (r.size + 1)
  start.readToken?.map fun (kind, after) ↦ (⟨kind, ⟨start.line, start.column⟩⟩, after)

/-- The next token of the finite sequence, which ends with the first end of the input in it. -/
def next? (r : ByteReader) : Option (Option Token × ByteReader) :=
  if r.finished then some (none, r)
  else
    r.nextToken?.map fun (t, after) ↦ (some t, { after with finished := t.kind == .eof })

end ByteReader

end MonkeyLang
