import MonkeyLang.Token.Stream

/-!
# Lexers

A `Lexer` delivers the tokens of one text in two ways that share one cursor.

* `Lexer.nextToken` delivers the next token, whatever was delivered before.
* `Lexer.next?` treats the tokens as a finite sequence: once it has delivered the end of the input
  it delivers nothing.  `Lexer.drain` takes all that is left of that sequence.

Only the second way keeps track of the end, so `nextToken` may deliver an end of the input without
ending the sequence.  `Lexer.reset` goes back to the start of the text.

The tokens come from `Cursor.next`, which never comes to an end: behind the text there are ends of
the input, one column apart.  `finished` is the only thing that a lexer adds to its cursor, and the
text is kept for `reset`.  What the two ways together deliver is said in `Lexer.drive_follows`.

`drain` takes the stream of the cursor as a whole instead of calling `next?` again and again.  The
cursor is left behind the end that was delivered, which is one column to the right of it.
-/

set_option autoImplicit false

namespace MonkeyLang

/-- A text, how far its tokens were delivered, and whether their finite sequence has ended. -/
structure Lexer where
  text : String
  cursor : Cursor
  finished : Bool

namespace Lexer

/-- A lexer in front of the whole text. -/
def ofText (text : String) : Lexer := ⟨text, .ofText text, false⟩

/-- The next token of the endless stream. -/
def nextToken (l : Lexer) : Token × Lexer :=
  (l.cursor.next.1, { l with cursor := l.cursor.next.2 })

/-- The next token of the finite sequence, which ends with the first end of the input in it. -/
def next? (l : Lexer) : Option Token × Lexer :=
  if l.finished then (none, l)
  else
    let t := l.cursor.next.1
    (some t, { l with cursor := l.cursor.next.2, finished := t.kind == .eof })

/-- All that is left of the finite sequence. -/
def drain (l : Lexer) : List Token × Lexer :=
  if l.finished then ([], l)
  else
    let s := l.cursor.stream
    (s.tokens, { l with cursor := ⟨[], s.finish.right⟩, finished := true })

/-- The lexer back at the start of its text. -/
def reset (l : Lexer) : Lexer := ofText l.text

end Lexer

end MonkeyLang
