import MonkeyLang.Token.Scan

/-!
# The endless stream of tokens

A text is read through a `Cursor`, which is what is left of the text and the place where that
starts.  `Cursor.next` delivers the next token.  At the end of the text it delivers the
end-of-input token, as often as it is asked, one column further each time.

`Cursor.stream` runs a cursor to the end of its text.  The result is a `Stream`: the tokens still
to come, and the place of the first end-of-input token after them.  `Stream.head` and `Stream.tail`
are all that a reader of tokens needs, and they never run dry.

The stream is endless so that a reader can look at the next token and take it without asking first
whether there is one.  It is given by a finite list nevertheless: after the list there is nothing
but ends of input, and their places follow from the first one.  So streams can be compared and
measured, and the length of the list is what readers use up.
-/

set_option autoImplicit false

namespace MonkeyLang

/-! ## Cursors -/

/-- What is left of a text, and the place of its first character. -/
structure Cursor where
  rest : List Char
  position : Position
deriving DecidableEq

namespace Cursor

/-- A cursor in front of the whole text. -/
def ofText (text : String) : Cursor := ⟨text.toList, .start⟩

/-- The next token, which starts after the blanks at the cursor, and the cursor after it. -/
def next (k : Cursor) : Token × Cursor :=
  let start := k.position.advance (k.rest.takeWhile isBlank)
  match k.rest.dropWhile isBlank with
  | [] => (.eof start, ⟨[], start.right⟩)
  | c :: cs =>
    let kind := (scan c cs).1
    (⟨kind, start⟩, ⟨(scan c cs).2, start.advance kind.spelling⟩)

/-- A token that is not the end of the input leaves less text. -/
theorem length_next_lt {k : Cursor} (h : k.next.1.kind ≠ .eof) :
    k.next.2.rest.length < k.rest.length := by
  unfold next at h ⊢
  have hlen := length_dropWhile_le isBlank k.rest
  cases hd : k.rest.dropWhile isBlank with
  | nil => simp [hd, Token.eof] at h
  | cons c cs =>
    have := length_scan_le c cs
    rw [hd] at hlen
    simp only [List.length_cons] at hlen ⊢
    omega

end Cursor

/-! ## Streams -/

/-- The tokens before the end of the input, and the place of the first end-of-input token. -/
structure Stream where
  pending : List Token
  finish : Position
deriving DecidableEq

namespace Stream

/-- The next token of the stream. -/
def head (s : Stream) : Token :=
  match s.pending with
  | [] => .eof s.finish
  | t :: _ => t

/-- The stream after its next token. -/
def tail (s : Stream) : Stream :=
  match s.pending with
  | [] => ⟨[], s.finish.right⟩
  | _ :: ts => ⟨ts, s.finish⟩

/-- The tokens up to the first end of the input, which is the last one of the list. -/
def tokens (s : Stream) : List Token := s.pending ++ [.eof s.finish]

end Stream

/-- All tokens from the cursor on. -/
def Cursor.stream (k : Cursor) : Stream :=
  if h : k.next.1.kind = .eof then ⟨[], k.next.1.position⟩
  else
    have := length_next_lt h
    let later := Cursor.stream k.next.2
    ⟨k.next.1 :: later.pending, later.finish⟩
termination_by k.rest.length

/-- The tokens of a text, with one end of the input after them. -/
def tokenize (text : String) : List Token := (Cursor.ofText text).stream.tokens

end MonkeyLang
