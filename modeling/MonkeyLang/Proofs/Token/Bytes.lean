import MonkeyLang.Proofs.Token.Driven
import MonkeyLang.Proofs.Token.Utf8

/-!
# Reading bytes instead of characters

A reader of bytes delivers the same tokens at the same places as a lexer on characters, and none of
its slices fails (`ByteReader.calls_agree`).

A reader that stands between two characters is related to the lexer there by `ByteReader.At`.  From
there it goes byte by byte through the next character, which ends between two characters again
(`ByteReader.At.char`), and what it does with a token is a number of such steps.  Once the end of
the input was delivered, the reader stands beyond the last byte (`ByteReader.Past`), and goes on
one byte further each time.

A call delivers a token at most, and a token takes one slice at most: `ByteReader.nextSlice?`.

## The relation

`At` has three parts.  `OnByte` is about the reader alone: the byte that it holds is the one at its
position, and the next one is read behind it.  `Beside` adds that the reader and the lexer are over
the same text, at the same line and column, and agree on whether their finite sequence is over.
`At` adds where that is, as a split of the text into characters.  The parts are structures that
extend each other, so that what is known of a reader inside of a character, where there is no lexer
at the same place, is still the first part.

The line and the column are the delicate fields.  The reader changes them on the way *to* a byte,
according to the byte that it leaves, and it counts a column unless the new byte continues a
character.  So inside of a character nothing changes, the line is counted up on the way to the
character behind a line feed, and the place is right again whenever a character starts.  At the
very end no byte follows, the current byte counts as zero, and the count goes on with that.

## What could go wrong

A slice fails when its ends are out of order, out of range, or inside of a character.  That the
reader never asks for such a slice needs the relation before and after the token, since both ends
are positions of the reader.  Strings are the only tokens that contain characters outside of ASCII,
apart from illegal characters, and there the search for the closing quote goes over bytes that
continue characters; none of them is a quote.
-/

set_option autoImplicit false

namespace MonkeyLang
namespace ByteReader

/-! ## Calls -/

/-- What can be called.  A call is a step of a lexer without those that a reader of bytes does not
have. -/
inductive Call where
  | next | nextToken | reset

/-- The step of a lexer on characters that a call corresponds to. -/
def Call.step : Call → Lexer.Step
  | next => .next
  | nextToken => .nextToken
  | reset => .reset

/-- The answer to a call and the reader after it, unless a slice fails. -/
def call? (r : ByteReader) : Call → Option (Lexer.Answer × ByteReader)
  | .next => r.next?.map fun (t, after) ↦ (.token t, after)
  | .nextToken => r.nextToken?.map fun (t, after) ↦ (.token (some t), after)
  | .reset => some (.restarted, r.reset)

/-- The answers to calls one after the other. -/
def calls? (r : ByteReader) : List Call → Option (List Lexer.Answer × ByteReader)
  | [] => some ([], r)
  | call :: rest => do
    let (answer, r) ← r.call? call
    let (answers, r) ← calls? r rest
    return (answer :: answers, r)

/-! ## Slices -/

/-- What a slice is taken for.  It tells apart the slices that are the text of a token from those
that are only looked into. -/
inductive Purpose where
  | identifier | number | string | illegal

/-- A slice of a text, from an index up to another. -/
structure Slice where
  purpose : Purpose
  start : Nat
  stop : Nat

/-- The slice that is taken for the token at the current byte, which is no blank. -/
def tokenSlice? (r : ByteReader) : Option Slice :=
  match r.readSymbol? with
  | some _ => none
  | none =>
    if r.byte = 0x22 then
      let after := r.advance.skipToQuote (r.size + 1)
      some ⟨.string, r.position + 1, if after.atEnd then r.size else after.position⟩
    else if r.byte = 0 ∧ r.atEnd = true then none
    else if isLetterByte r.byte then
      some ⟨.identifier, r.position, (r.skipWhile isLetterByte (r.size + 1)).position⟩
    else if isDigitByte r.byte then
      some ⟨.number, r.position, (r.skipWhile isDigitByte (r.size + 1)).position⟩
    else some ⟨.illegal, r.position, r.size⟩

/-- The slice that is taken for the next token.  It is taken out of the reader so that it can be
spoken about: the reader itself only shows that some slice has failed. -/
def nextSlice? (r : ByteReader) : Option Slice := (r.skipWhile isBlankByte (r.size + 1)).tokenSlice?

/-- **A token is read unless its slice fails.** -/
theorem isSome_readToken? (r : ByteReader) :
    r.readToken?.isSome = true ↔
      ∀ s ∈ r.tokenSlice?, (slice? r.text s.start s.stop).isSome = true := by
  rw [readToken?, tokenSlice?]
  cases r.readSymbol? with
  | some reading => simp
  | none =>
    dsimp only
    split
    · rw [readString?]
      split <;> simp
    · split
      · simp
      · split
        · simp [readRun?]
        · split
          · simp [readRun?]
          · simp [readIllegal?]

/-! ## Beside a lexer -/

/-- The current byte of the reader is the one at its position, and the next one is read after it.
The reader keeps both of them beside its position, and this is what keeps them right. -/
structure OnByte (r : ByteReader) : Prop where
  readPosition_eq : r.readPosition = r.position + 1
  byte_eq : r.byte = byteAt r.text r.position

/-- The reader is over the text of the lexer and at the same place.  The same place means the same
line and column; how far it is in bytes is left to the two kinds of places below. -/
structure Beside (r : ByteReader) (l : Lexer) : Prop extends r.OnByte where
  text_eq : r.text = l.text
  finished_eq : r.finished = l.finished
  line_eq : r.line = l.cursor.position.line
  column_eq : r.column = l.cursor.position.column

/-- The reader stands after the bytes of the characters `before`, where the lexer stands.  This is
the position in bytes: the size of the characters before it. -/
structure At (r : ByteReader) (l : Lexer) (before : List Char) : Prop extends r.Beside l where
  split : l.text.toList = before ++ l.cursor.rest
  position_eq : r.position = (utf8Chars before).length

/-- The reader stands beyond the last byte, and nothing is left for the lexer.  The reader may be
any number of bytes beyond the end, as each call for a token there moves it on by one. -/
structure Past (r : ByteReader) (l : Lexer) : Prop extends r.Beside l where
  rest_eq : l.cursor.rest = []
  size_lt : l.text.utf8ByteSize < r.position

/-! ## Moving byte by byte

Here the bytes of the text count and its characters do not.  What is said of bytes inside of a
character is that they continue it. -/

theorem advanceBy_succ (r : ByteReader) (n : Nat) :
    r.advanceBy (n + 1) = (r.advanceBy n).advance := by
  induction n generalizing r with
  | zero => rfl
  | succ n ih => exact ih r.advance

/-- Whatever the reader was before, it stands on a byte after a move. -/
theorem onByte_advance (r : ByteReader) : r.advance.OnByte := ⟨rfl, rfl⟩

namespace OnByte

variable {r : ByteReader}

/-- A move over several bytes, which are those of one character or of several. -/
theorem advanceBy (h : r.OnByte) (n : Nat) :
    (r.advanceBy n).OnByte ∧ (r.advanceBy n).position = r.position + n ∧
      (r.advanceBy n).text = r.text ∧ (r.advanceBy n).finished = r.finished := by
  induction n generalizing r with
  | zero => exact ⟨h, rfl, rfl, rfl⟩
  | succ n ih =>
    obtain ⟨honByte, hposition, htext, hfinished⟩ := ih (onByte_advance r)
    refine ⟨honByte, hposition.trans ?_, htext, hfinished⟩
    show r.readPosition + n = _
    rw [h.readPosition_eq]
    omega

/-- Inside a character neither the line nor the column changes. -/
theorem advanceBy_inside (h : r.OnByte) (hbyte : r.byte ≠ 0x0A) {n : Nat}
    (hn : ∀ j < n, isContinuation (byteAt r.text (r.position + 1 + j)) = true) :
    (r.advanceBy n).line = r.line ∧ (r.advanceBy n).column = r.column ∧
      (r.advanceBy n).byte ≠ 0x0A := by
  induction n generalizing r with
  | zero => exact ⟨rfl, rfl, hbyte⟩
  | succ n ih =>
    have hfirst : isContinuation (byteAt r.text r.readPosition) = true := by
      rw [h.readPosition_eq]
      exact hn 0 (Nat.succ_pos n)
    have hline : r.advance.line = r.line := if_neg hbyte
    have hcolumn : r.advance.column = r.column := by
      show (if isContinuation (byteAt r.text r.readPosition) = true then
        (if r.byte = 0x0A then 0 else r.column) else _) = _
      rw [if_pos hfirst, if_neg hbyte]
    have hnext : r.advance.byte ≠ 0x0A := by
      show byteAt r.text r.readPosition ≠ 0x0A
      intro heq
      rw [heq] at hfirst
      exact absurd hfirst (by decide)
    rw [← hline, ← hcolumn]
    refine ih (onByte_advance r) hnext fun j hj ↦ ?_
    show isContinuation (byteAt r.text (r.readPosition + 1 + j)) = true
    rw [h.readPosition_eq, Nat.add_assoc (r.position + 1), Nat.add_comm 1 j]
    exact hn (j + 1) (Nat.succ_lt_succ hj)

/-- Bytes of the text that are no quotes are passed over on the way to the next quote. -/
theorem skipToQuote_add (h : r.OnByte) {n : Nat}
    (hn : ∀ j < n, r.position + j < r.size ∧ byteAt r.text (r.position + j) ≠ 0x22)
    (limit : Nat) : r.skipToQuote (n + limit) = (r.advanceBy n).skipToQuote limit := by
  induction n generalizing r with
  | zero => rw [Nat.zero_add]; rfl
  | succ n ih =>
    obtain ⟨hlt, hbyte⟩ := hn 0 (Nat.succ_pos n)
    rw [Nat.add_zero] at hlt hbyte
    have hgo : ¬ (r.atEnd || r.byte == 0x22) = true := by
      rw [h.byte_eq, Bool.or_eq_true, atEnd, decide_eq_true_eq, beq_iff_eq]
      exact not_or.2 ⟨Nat.not_le.2 hlt, hbyte⟩
    rw [Nat.succ_add, skipToQuote, if_neg hgo]
    refine ih (onByte_advance r) fun j hj ↦ ?_
    have hposition : r.advance.position + j = r.position + (j + 1) := by
      show r.readPosition + j = _
      rw [h.readPosition_eq]
      omega
    rw [hposition]
    exact hn (j + 1) (Nat.succ_lt_succ hj)

end OnByte

/-- A byte that starts a character stands one column further, or on the next line after a line
feed. -/
theorem place_advance {r : ByteReader} {p : Position} {c : Char} (hline : r.line = p.line)
    (hcolumn : r.column = p.column) (hlineFeed : r.byte = 0x0A ↔ c = '\n')
    (hfresh : isContinuation r.advance.byte = false) :
    r.advance.line = (p.step c).line ∧ r.advance.column = (p.step c).column := by
  have hadvance : r.advance.line = (if r.byte = 0x0A then r.line + 1 else r.line) ∧
      r.advance.column = (if isContinuation r.advance.byte = true then
        (if r.byte = 0x0A then 0 else r.column)
        else (if r.byte = 0x0A then 0 else r.column) + 1) := ⟨rfl, rfl⟩
  rw [hadvance.1, hadvance.2, hfresh, if_neg Bool.false_ne_true, Position.step, hline, hcolumn]
  by_cases hc : c = '\n'
  · rw [if_pos (hlineFeed.2 hc), if_pos (hlineFeed.2 hc), if_pos hc]
    exact ⟨rfl, rfl⟩
  · rw [if_neg (mt hlineFeed.1 hc), if_neg (mt hlineFeed.1 hc), if_neg hc]
    exact ⟨rfl, rfl⟩

/-! ## Moving character by character

The relation is between a reader and the lexer in front of a list of characters.  By cases of that
list one learns what the current byte is: the first byte of the next character, or zero if there is
none. -/

namespace At

variable {r : ByteReader} {text : String} {c : Char} {rest before : List Char} {p : Position}
  {finished : Bool}

theorem size_eq (h : At r ⟨text, ⟨rest, p⟩, finished⟩ before) :
    r.size = (utf8Chars before).length + (utf8Chars rest).length := by
  rw [size, h.text_eq]
  exact size_of_split h.split

/-- No byte is left when no character is. -/
theorem atEnd_iff (h : At r ⟨text, ⟨rest, p⟩, finished⟩ before) : r.atEnd = true ↔ rest = [] := by
  rw [atEnd, decide_eq_true_eq, h.position_eq, h.size_eq]
  constructor
  · intro hle
    have hlength := length_le_length_utf8Chars rest
    exact List.length_eq_zero_iff.1 (by omega)
  · rintro rfl
    exact Nat.le_refl _

/-- The bytes from the current one on are those of the characters that are left. -/
theorem byteAt_add (h : At r ⟨text, ⟨rest, p⟩, finished⟩ before) (j : Nat) :
    byteAt r.text (r.position + j) = ((utf8Chars rest)[j]?).getD 0 := by
  rw [h.text_eq, h.position_eq]
  exact byteAt_of_split h.split j

/-- The current byte is the first one of the next character. -/
theorem byte_eq_first (h : At r ⟨text, ⟨c :: rest, p⟩, finished⟩ before) {b : UInt8}
    {bs : List UInt8} (hc : String.utf8EncodeChar c = b :: bs) : r.byte = b := by
  rw [h.byte_eq, h.text_eq, h.position_eq]
  exact byteAt_first h.split hc

/-- Where no character is left the current byte counts as zero. -/
theorem byte_eq_zero (h : At r ⟨text, ⟨[], p⟩, finished⟩ before) : r.byte = 0 := by
  rw [h.byte_eq]
  exact h.byteAt_add 0

/-- The line feed is a class of its own. -/
theorem asciiClass_lineFeed : AsciiClass (· == 0x0A) (· == '\n') :=
  asciiClass_beq (by decide) (by decide)

/-- Before the last byte of a character the place is that of the character, and it is a line feed
there if it was one at the first byte. -/
theorem lastByte (h : At r ⟨text, ⟨c :: rest, p⟩, finished⟩ before) {b : UInt8} {bs : List UInt8}
    (hc : String.utf8EncodeChar c = b :: bs) (hencoded : Encoded c (b :: bs)) :
    (r.advanceBy bs.length).line = r.line ∧ (r.advanceBy bs.length).column = r.column ∧
      ((r.advanceBy bs.length).byte = 0x0A ↔ c = '\n') := by
  have hfirst : r.byte = b := h.byte_eq_first hc
  have hclass : (b == 0x0A) = (c == '\n') := asciiClass_lineFeed.first hencoded
  by_cases hlineFeed : c = '\n'
  -- a line feed is one byte, which is the last one already
  · obtain rfl : bs = [] := asciiClass_lineFeed.eq_nil hencoded (beq_iff_eq.2 hlineFeed)
    rw [beq_iff_eq.2 hlineFeed, beq_iff_eq] at hclass
    exact ⟨rfl, rfl, iff_of_true (hfirst.trans hclass) hlineFeed⟩
  · rw [beq_eq_false_iff_ne.2 hlineFeed, beq_eq_false_iff_ne, ← hfirst] at hclass
    have hinside : ∀ j < bs.length, isContinuation (byteAt r.text (r.position + 1 + j)) = true := by
      intro j hj
      have hbyte := h.byteAt_add (j + 1)
      rw [utf8Chars_cons, hc, List.cons_append, List.getElem?_cons_succ,
        List.getElem?_append_left hj, List.getElem?_eq_getElem hj, Option.getD_some] at hbyte
      rw [Nat.add_assoc, Nat.add_comm 1 j, hbyte]
      exact hencoded.continuation.2 _ (List.getElem_mem hj)
    obtain ⟨hline, hcolumn, hne⟩ := h.advanceBy_inside hclass hinside
    exact ⟨hline, hcolumn, iff_of_false hne hlineFeed⟩

/-- **The next character is a number of bytes.** -/
theorem char (h : At r ⟨text, ⟨c :: rest, p⟩, finished⟩ before) :
    At (r.advanceBy c.utf8Size) ⟨text, ⟨rest, p.step c⟩, finished⟩ (before ++ [c]) := by
  obtain ⟨b, bs, hc, hencoded⟩ := exists_encoded c
  have hsize : c.utf8Size = bs.length + 1 := by
    rw [← String.length_utf8EncodeChar, hc, List.length_cons]
  obtain ⟨hline, hcolumn, hlineFeed⟩ := h.lastByte hc hencoded
  obtain ⟨honByte, hposition, htext, hfinished⟩ := h.advanceBy bs.length
  have hsplit : text.toList = (before ++ [c]) ++ rest := by
    rw [List.append_assoc]
    exact h.split
  have hnext : (r.advanceBy bs.length).readPosition = (utf8Chars (before ++ [c])).length := by
    rw [honByte.readPosition_eq, hposition, h.position_eq, utf8Chars_append, List.length_append,
      utf8Chars_cons, hc, List.length_append, List.length_cons]
    rfl
  have hfresh : isContinuation (r.advanceBy bs.length).advance.byte = false := by
    show isContinuation (byteAt (r.advanceBy bs.length).text _) = false
    rw [htext, h.text_eq, hnext]
    exact isContinuation_byteAt_of_split hsplit
  obtain ⟨hline', hcolumn'⟩ := place_advance (hline.trans h.line_eq) (hcolumn.trans h.column_eq)
    hlineFeed hfresh
  rw [hsize, advanceBy_succ]
  exact ⟨⟨onByte_advance _, htext.trans h.text_eq, hfinished.trans h.finished_eq, hline', hcolumn'⟩,
    hsplit, hnext⟩

/-- A character of a class is one byte. -/
theorem charOfClass {bytes : UInt8 → Bool} {chars : Char → Bool} (hclass : AsciiClass bytes chars)
    (hchar : chars c = true) (h : At r ⟨text, ⟨c :: rest, p⟩, finished⟩ before) :
    At r.advance ⟨text, ⟨rest, p.step c⟩, finished⟩ (before ++ [c]) := by
  obtain ⟨b, bs, hc, hencoded⟩ := exists_encoded c
  have hsize : c.utf8Size = 1 := by
    rw [← String.length_utf8EncodeChar, hc, hclass.eq_nil hencoded hchar]
    rfl
  have hadvance := h.char
  rwa [hsize] at hadvance

/-- The byte is in a class if the character is. -/
theorem byte_class {bytes : UInt8 → Bool} {chars : Char → Bool} (hclass : AsciiClass bytes chars)
    (h : At r ⟨text, ⟨c :: rest, p⟩, finished⟩ before) : bytes r.byte = chars c := by
  obtain ⟨b, bs, hc, hencoded⟩ := exists_encoded c
  rw [h.byte_eq_first hc]
  exact hclass.first hencoded

/-! ### Runs and strings -/

/-- Going on over a class of bytes is going on over a class of characters.  The loop over bytes has
a bound, which has to be large enough. -/
theorem skipWhile {bytes : UInt8 → Bool} {chars : Char → Bool} (hclass : AsciiClass bytes chars)
    (hzero : bytes 0 = false) {limit : Nat} (hlimit : rest.length < limit)
    (h : At r ⟨text, ⟨rest, p⟩, finished⟩ before) :
    At (r.skipWhile bytes limit)
      ⟨text, ⟨rest.dropWhile chars, p.advance (rest.takeWhile chars)⟩, finished⟩
      (before ++ rest.takeWhile chars) := by
  induction rest generalizing r before p limit with
  | nil =>
    obtain ⟨limit, rfl⟩ : ∃ n, limit = n + 1 := ⟨limit - 1, by omega⟩
    -- past the end the byte is zero, which is in none of the classes
    have hstop : ¬ bytes r.byte = true := by
      rw [h.byte_eq_zero, hzero]
      exact Bool.false_ne_true
    rw [ByteReader.skipWhile, if_neg hstop, List.takeWhile_nil, List.append_nil]
    exact h
  | cons c rest ih =>
    obtain ⟨limit, rfl⟩ : ∃ n, limit = n + 1 := ⟨limit - 1, by omega⟩
    rw [ByteReader.skipWhile, h.byte_class hclass]
    cases hc : chars c with
    | true =>
      have hrest := ih (Nat.lt_of_succ_lt_succ hlimit) (h.charOfClass hclass hc)
      rw [List.append_assoc] at hrest
      rw [if_pos rfl, List.takeWhile_cons_of_pos hc, List.dropWhile_cons_of_pos hc]
      exact hrest
    | false =>
      have hstop : ¬ chars c = true := by rw [hc]; exact Bool.false_ne_true
      rw [if_neg Bool.false_ne_true, List.takeWhile_cons_of_neg hstop,
        List.dropWhile_cons_of_neg hstop, List.append_nil]
      exact h

/-- There are at most as many characters as bytes, so that the bound of a loop over bytes is
enough. -/
theorem length_lt_size (h : At r ⟨text, ⟨rest, p⟩, finished⟩ before) :
    rest.length < r.size + 1 := by
  have hle := length_le_length_utf8Chars rest
  rw [h.size_eq]
  omega

/-- What a class of bytes spells is cut out.  Both ends of the run are boundaries, so the slice
does not fail. -/
theorem readRun? {bytes : UInt8 → Bool} {chars : Char → Bool} (hclass : AsciiClass bytes chars)
    (hzero : bytes 0 = false) (h : At r ⟨text, ⟨rest, p⟩, finished⟩ before) :
    ∃ after, r.readRun? bytes = some (String.ofList (rest.takeWhile chars), after) ∧
      At after ⟨text, ⟨rest.dropWhile chars, p.advance (rest.takeWhile chars)⟩, finished⟩
        (before ++ rest.takeWhile chars) := by
  have hafter := h.skipWhile hclass hzero h.length_lt_size
  have hsplit : text.toList = before ++ (rest.takeWhile chars ++ rest.dropWhile chars) := by
    rw [List.takeWhile_append_dropWhile]
    exact h.split
  refine ⟨_, ?_, hafter⟩
  rw [ByteReader.readRun?, hafter.position_eq, h.position_eq, h.text_eq, slice?_of_split hsplit]
  rfl

theorem asciiClass_quote : AsciiClass (· == 0x22) (· == '"') :=
  asciiClass_beq (by decide) (by decide)

/-- No byte of another character is a quote. -/
theorem byte_ne_quote (h : At r ⟨text, ⟨c :: rest, p⟩, finished⟩ before) (hc : c ≠ '"') :
    ∀ j < c.utf8Size, r.position + j < r.size ∧ byteAt r.text (r.position + j) ≠ 0x22 := by
  obtain ⟨b, bs, henc, hencoded⟩ := exists_encoded c
  have hall : ∀ x ∈ b :: bs, x ≠ 0x22 := by
    refine List.forall_mem_cons.2 ⟨beq_eq_false_iff_ne.1 ?_, fun x hx ↦ beq_eq_false_iff_ne.1 ?_⟩
    · rw [asciiClass_quote.first hencoded]
      exact beq_eq_false_iff_ne.2 hc
    · exact asciiClass_quote.continuation (hencoded.continuation.2 x hx)
  intro j hj
  rw [← String.length_utf8EncodeChar, henc] at hj
  refine ⟨?_, ?_⟩
  · rw [h.size_eq, h.position_eq, utf8Chars_cons, henc, List.length_append]
    omega
  · rw [h.byteAt_add, utf8Chars_cons, henc, List.getElem?_append_left hj,
      List.getElem?_eq_getElem hj, Option.getD_some]
    exact hall _ (List.getElem_mem hj)

/-- The way to the next quote goes over whole characters.  A character of several bytes is no quote
and none of its bytes is, so going byte by byte stops at the same quote. -/
theorem skipToQuote {limit : Nat} (hlimit : (utf8Chars rest).length < limit)
    (h : At r ⟨text, ⟨rest, p⟩, finished⟩ before) :
    At (r.skipToQuote limit)
      ⟨text, ⟨rest.dropWhile isQuotable, p.advance (rest.takeWhile isQuotable)⟩, finished⟩
      (before ++ rest.takeWhile isQuotable) := by
  induction rest generalizing r before p limit with
  | nil =>
    obtain ⟨limit, rfl⟩ : ∃ n, limit = n + 1 := ⟨limit - 1, by omega⟩
    rw [ByteReader.skipToQuote, h.atEnd_iff.2 rfl, Bool.true_or, if_pos rfl, List.takeWhile_nil,
      List.append_nil]
    exact h
  | cons c rest ih =>
    rw [utf8Chars_cons, List.length_append, String.length_utf8EncodeChar] at hlimit
    by_cases hc : c = '"'
    · have hstop : ¬ isQuotable c = true := by simp [isQuotable, hc]
      have hquote : (r.byte == 0x22) = true := by
        rw [h.byte_class asciiClass_quote]
        exact beq_iff_eq.2 hc
      obtain ⟨limit, rfl⟩ : ∃ n, limit = n + 1 := ⟨limit - 1, by omega⟩
      rw [ByteReader.skipToQuote, hquote, Bool.or_true, if_pos rfl,
        List.takeWhile_cons_of_neg hstop, List.dropWhile_cons_of_neg hstop, List.append_nil]
      exact h
    -- the bytes of the character are passed over together, and the limit is larger by their number
    · have hgo : isQuotable c = true := by simp [isQuotable, hc]
      obtain ⟨limit, rfl⟩ : ∃ n, limit = c.utf8Size + n := ⟨limit - c.utf8Size, by omega⟩
      have hlater : (utf8Chars rest).length < limit := by omega
      have hrest := ih hlater h.char
      rw [List.append_assoc] at hrest
      rw [h.skipToQuote_add (h.byte_ne_quote hc), List.takeWhile_cons_of_pos hgo,
        List.dropWhile_cons_of_pos hgo]
      exact hrest

/-- A string is read up to its closing quote, or to the end of the text. -/
theorem readString? (h : At r ⟨text, ⟨'"' :: rest, p⟩, finished⟩ before) :
    ∃ after used, r.readString? = some ((scanString rest).1, after) ∧
      At after ⟨text, ⟨(scanString rest).2, p.advance (scanString rest).1.spelling⟩, finished⟩
        used := by
  have hopen := h.charOfClass asciiClass_quote (beq_self_eq_true _)
  have hlimit : (utf8Chars rest).length < r.size + 1 := by
    rw [h.size_eq, utf8Chars_cons, List.length_append]
    omega
  have hinside := hopen.skipToQuote hlimit
  have hsplit : text.toList = (before ++ ['"']) ++
      (rest.takeWhile isQuotable ++ rest.dropWhile isQuotable) := by
    rw [List.takeWhile_append_dropWhile]
    exact hopen.split
  have hslice := slice?_of_split hsplit
  have hstart : r.position + 1 = (utf8Chars (before ++ ['"'])).length := by
    rw [← h.readPosition_eq]
    exact hopen.position_eq
  have htext : r.text = text := h.text_eq
  rw [ByteReader.readString?, hstart, htext]
  -- what is left behind the inside of the string is nothing, or starts with a quote
  cases hdrop : rest.dropWhile isQuotable with
  | nil =>
    have hscan : scanString rest =
        (.unterminated (String.ofList (rest.takeWhile isQuotable)), []) := by
      rw [scanString, hdrop]
    rw [hdrop] at hinside
    have hstop : r.size = (utf8Chars (before ++ ['"'] ++ rest.takeWhile isQuotable)).length := by
      rw [size, htext]
      exact size_of_split hinside.split
    rw [← hstop] at hslice
    rw [if_pos (hinside.atEnd_iff.2 rfl), hslice, hscan, TokenKind.spelling, String.toList_ofList]
    exact ⟨_, _, rfl, hinside⟩
  | cons q later =>
    have hq : q = '"' := by
      have hhead := List.head?_dropWhile_not isQuotable rest
      rw [hdrop] at hhead
      simpa [isQuotable] using hhead
    subst hq
    have hscan : scanString rest =
        (.string (String.ofList (rest.takeWhile isQuotable)), later) := by
      rw [scanString, hdrop]
    rw [hdrop] at hinside
    have hclosed := hinside.charOfClass asciiClass_quote (beq_self_eq_true _)
    rw [if_neg (mt hinside.atEnd_iff.1 (List.cons_ne_nil _ _)), hinside.position_eq, hslice, hscan,
      TokenKind.spelling, String.toList_ofList, Position.advance_cons, Position.advance_append]
    exact ⟨_, _, rfl, hclosed⟩

/-- A character that starts no token is cut out of the rest of the text. -/
theorem readIllegal? (h : At r ⟨text, ⟨c :: rest, p⟩, finished⟩ before) :
    slice? text r.position r.size = some (String.ofList (c :: rest)) ∧
      ∃ after, r.readIllegal? = some (.illegal c, after) ∧
        At after ⟨text, ⟨rest, p.step c⟩, finished⟩ (before ++ [c]) := by
  have htext : r.text = text := h.text_eq
  have hsplit : text.toList = before ++ ((c :: rest) ++ []) := by
    rw [List.append_nil]
    exact h.split
  have hstop : r.size = (utf8Chars (before ++ (c :: rest))).length := by
    rw [size, htext, utf8Chars_append, List.length_append]
    exact size_of_split h.split
  have hslice := slice?_of_split hsplit
  rw [← h.position_eq, ← hstop] at hslice
  refine ⟨hslice, _, ?_, h.char⟩
  rw [ByteReader.readIllegal?, htext, hslice, Option.map_some, String.toList_ofList]
  rfl

/-! ### Tokens -/

/-- The byte is not in a class if no character of the class comes next. -/
theorem byte_class_of_stopsAt {bytes : UInt8 → Bool} {chars : Char → Bool}
    (hclass : AsciiClass bytes chars) (hzero : bytes 0 = false)
    (h : At r ⟨text, ⟨rest, p⟩, finished⟩ before) (hstop : StopsAt chars rest) :
    bytes r.byte = false := by
  cases rest with
  | nil => rw [h.byte_eq_zero, hzero]
  | cons c rest => rw [h.byte_class hclass, stopsAt_cons.1 hstop]

theorem asciiClass_equals : AsciiClass (· == 0x3D) (· == '=') :=
  asciiClass_beq (by decide) (by decide)

/-- The current byte tells which symbol the next character is. -/
theorem ofChar?_byte (h : At r ⟨text, ⟨c :: rest, p⟩, finished⟩ before) :
    Symbol.ofChar? (Char.ofNat r.byte.toNat) = Symbol.ofChar? c := by
  obtain ⟨b, bs, hc, hencoded⟩ := exists_encoded c
  rw [h.byte_eq_first hc]
  exact ofChar?_first hencoded

/-- The symbol is the longest one. -/
theorem readSymbol? (h : At r ⟨text, ⟨c :: rest, p⟩, finished⟩ before) {s : Symbol}
    (hs : Symbol.ofChar? c = some s) :
    ∃ after used, r.readSymbol? = some ((scanSymbol s rest).1, after) ∧
      At after ⟨text, ⟨(scanSymbol s rest).2, p.advance (scanSymbol s rest).1.spelling⟩, finished⟩
        used := by
  have hnext := h.charOfClass asciiClass_symbol (by rw [hs]; rfl)
  have hspelling : s.spelling.toList = [c] := Symbol.spelling_of_ofChar? hs
  rw [ByteReader.readSymbol?, h.ofChar?_byte, hs]
  dsimp only
  obtain ⟨longer, later, hlonger, rfl, hscan⟩ | ⟨hstop, hscan⟩ := scanSymbol_cases s rest
  · have hpeek : r.peek = 0x3D := beq_iff_eq.1 (hnext.byte_class asciiClass_equals)
    have hspellingLonger : (TokenKind.symbol longer).spelling = [c] ++ ['='] := by
      rw [← hspelling]
      exact Symbol.spelling_of_beforeEquals? hlonger
    rw [hlonger, hscan, hspellingLonger]
    dsimp only
    rw [if_pos hpeek]
    exact ⟨_, _, rfl, hnext.charOfClass asciiClass_equals rfl⟩
  · have hsymbol : (TokenKind.symbol s).spelling = [c] := hspelling
    rw [hscan, hsymbol]
    refine ⟨r.advance, _, ?_, hnext⟩
    cases hlonger : s.beforeEquals? with
    | none => rfl
    | some longer =>
      have hpeek : ¬ r.peek = 0x3D := beq_eq_false_iff_ne.1
        (hnext.byte_class_of_stopsAt asciiClass_equals rfl (hstop longer hlonger))
      exact if_neg hpeek

/-- A character that is no symbol does not look like one to the reader. -/
theorem readSymbol?_eq_none (h : At r ⟨text, ⟨c :: rest, p⟩, finished⟩ before)
    (hs : Symbol.ofChar? c = none) : r.readSymbol? = none := by
  rw [ByteReader.readSymbol?, h.ofChar?_byte, hs]

/-- **The token at the current byte is the one at the next character.** -/
theorem readToken? (h : At r ⟨text, ⟨c :: rest, p⟩, finished⟩ before) :
    ∃ after used, r.readToken? = some ((scan c rest).1, after) ∧
      At after ⟨text, ⟨(scan c rest).2, p.advance (scan c rest).1.spelling⟩, finished⟩ used := by
  rw [ByteReader.readToken?]
  cases hs : Symbol.ofChar? c with
  | some s =>
    obtain ⟨after, used, hread, hafter⟩ := h.readSymbol? hs
    rw [hread, scan_ofChar rest hs]
    exact ⟨after, used, rfl, hafter⟩
  | none =>
    rw [h.readSymbol?_eq_none hs]
    dsimp only
    have hquote : r.byte = 0x22 ↔ c = '"' := by
      rw [← beq_iff_eq, h.byte_class asciiClass_quote, beq_iff_eq]
    have hend : ¬ (r.byte = 0 ∧ r.atEnd = true) :=
      fun hend ↦ absurd (h.atEnd_iff.1 hend.2) (List.cons_ne_nil _ _)
    -- the reader asks for a quote first and the scanner asks for it last, so it is dealt with first
    by_cases hc : c = '"'
    · subst hc
      rw [if_pos (hquote.2 rfl), scan_quote]
      exact h.readString?
    · rw [if_neg (mt hquote.1 hc), if_neg hend, h.byte_class asciiClass_letter,
        h.byte_class asciiClass_digit, scan]
      cases hletter : isLetter c with
      | true =>
        obtain ⟨after, hread, hafter⟩ := h.readRun? asciiClass_letter rfl
        rw [List.takeWhile_cons_of_pos hletter, List.dropWhile_cons_of_pos hletter] at hafter
        rw [List.takeWhile_cons_of_pos hletter] at hread
        rw [if_pos rfl, if_pos rfl, hread, TokenKind.spelling_ofWord, String.toList_ofList]
        exact ⟨after, _, rfl, hafter⟩
      | false =>
        rw [if_neg Bool.false_ne_true, if_neg Bool.false_ne_true]
        cases hdigit : c.isDigit with
        | true =>
          obtain ⟨after, hread, hafter⟩ := h.readRun? asciiClass_digit rfl
          rw [List.takeWhile_cons_of_pos hdigit, List.dropWhile_cons_of_pos hdigit] at hafter
          rw [List.takeWhile_cons_of_pos hdigit] at hread
          rw [if_pos rfl, if_pos rfl, hread]
          have hspelling (digits : List Char) :
              (TokenKind.int (String.ofList digits)).spelling = digits := String.toList_ofList
          rw [hspelling]
          exact ⟨after, _, rfl, hafter⟩
        | false =>
          obtain ⟨-, after, hread, hafter⟩ := h.readIllegal?
          rw [if_neg Bool.false_ne_true, if_neg Bool.false_ne_true, if_neg hc, hs, hread]
          have hspelling : (TokenKind.illegal c).spelling = [c] := String.toList_singleton c
          rw [hspelling]
          exact ⟨after, _, rfl, hafter⟩

end At

/-! ## Beyond the end -/

section Beyond

variable {r : ByteReader} {text : String} {p : Position} {finished : Bool}

theorem Beside.byte_eq_zero (h : Beside r ⟨text, ⟨[], p⟩, finished⟩)
    (hend : text.utf8ByteSize ≤ r.position) : r.byte = 0 := by
  rw [h.byte_eq, h.text_eq]
  exact byteAt_of_le hend

/-- There is no token left but the end of the input. -/
theorem Beside.readToken?_end (h : Beside r ⟨text, ⟨[], p⟩, finished⟩)
    (hend : text.utf8ByteSize ≤ r.position) : r.readToken? = some (.eof, r.advance) := by
  have hatEnd : r.atEnd = true := by
    rw [atEnd, decide_eq_true_eq, size, h.text_eq]
    exact hend
  rw [readToken?, readSymbol?, h.byte_eq_zero hend]
  exact if_pos (show _ ∧ _ from ⟨rfl, hatEnd⟩)

/-- The end of the input takes one byte more each time, and one column. -/
theorem Beside.past (h : Beside r ⟨text, ⟨[], p⟩, finished⟩)
    (hend : text.utf8ByteSize ≤ r.position) : Past r.advance ⟨text, ⟨[], p.right⟩, finished⟩ := by
  have hposition : text.utf8ByteSize < r.readPosition := by
    rw [h.readPosition_eq]
    exact Nat.lt_succ_of_le hend
  have hfresh : isContinuation r.advance.byte = false := by
    show isContinuation (byteAt r.text r.readPosition) = false
    rw [h.text_eq, byteAt_of_le (Nat.le_of_lt hposition)]
    decide
  have hlineFeed : r.byte = 0x0A ↔ ' ' = '\n' := by
    rw [h.byte_eq_zero hend]
    decide
  obtain ⟨hline, hcolumn⟩ := place_advance h.line_eq h.column_eq hlineFeed hfresh
  exact ⟨⟨onByte_advance r, h.text_eq, h.finished_eq, hline, hcolumn⟩, rfl, hposition⟩

end Beyond

/-! ## Calls beside a lexer

After each call the reader stands between two characters again, or beyond the end, and so it is
ready for any other call.  Nothing else is kept between calls. -/

/-- The reader stands where the lexer does: between two characters, or beyond the last byte.  This
is the invariant.  It is about calls, and within a call the reader is in states that are not of
this kind, such as inside a character. -/
def Stands (r : ByteReader) (l : Lexer) : Prop := (∃ before, r.At l before) ∨ r.Past l

namespace Stands

variable {r : ByteReader} {l : Lexer}

theorem beside (h : r.Stands l) : r.Beside l := by
  rcases h with ⟨before, h⟩ | h
  · exact h.toBeside
  · exact h.toBeside

/-- Where the reader stands there is a boundary, or no text any more. -/
theorem isBoundary (h : r.Stands l) :
    isBoundary l.text r.position = true ∨ l.text.utf8ByteSize < r.position := by
  rcases h with ⟨before, h⟩ | h
  · rw [h.position_eq]
    exact .inl (isBoundary_of_split h.split)
  · exact .inr h.size_lt

theorem finish (h : r.Stands l) (finished : Bool) :
    Stands { r with finished := finished } { l with finished := finished } := by
  rcases h with ⟨before, h⟩ | h
  · exact .inl ⟨before, ⟨⟨⟨h.readPosition_eq, h.byte_eq⟩, h.text_eq, rfl, h.line_eq, h.column_eq⟩,
      h.split, h.position_eq⟩⟩
  · exact .inr ⟨⟨⟨h.readPosition_eq, h.byte_eq⟩, h.text_eq, rfl, h.line_eq, h.column_eq⟩,
      h.rest_eq, h.size_lt⟩

/-- A new reader stands in front of the whole text. -/
theorem ofText (text : String) : Stands (ofText text) (.ofText text) := by
  refine .inl ⟨[], ⟨⟨onByte_advance _, rfl, rfl, rfl, ?_⟩, rfl, rfl⟩⟩
  have hsplit : text.toList = [] ++ text.toList := rfl
  have hfresh : isContinuation (byteAt text 0) = false := isContinuation_byteAt_of_split hsplit
  show (if isContinuation (byteAt text 0) = true then 0 else 1) = 1
  rw [hfresh]
  rfl

/-- After the blanks the reader stands in front of a character that is none, or at the end. -/
theorem skipBlanks (h : r.Stands l) {p : Position}
    (hp : l.cursor.position.advance (l.cursor.rest.takeWhile isBlank) = p) :
    (∃ c rest before, l.cursor.rest.dropWhile isBlank = c :: rest ∧
      At (r.skipWhile isBlankByte (r.size + 1)) ⟨l.text, ⟨c :: rest, p⟩, l.finished⟩ before) ∨
    l.cursor.rest.dropWhile isBlank = [] ∧
      Beside (r.skipWhile isBlankByte (r.size + 1)) ⟨l.text, ⟨[], p⟩, l.finished⟩ ∧
      l.text.utf8ByteSize ≤ (r.skipWhile isBlankByte (r.size + 1)).position := by
  obtain ⟨text, ⟨rest, start⟩, finished⟩ := l
  subst hp
  rcases h with ⟨before, h⟩ | h
  · have hstart := h.skipWhile asciiClass_blank rfl h.length_lt_size
    dsimp only at hstart ⊢
    cases hdrop : rest.dropWhile isBlank with
    | nil =>
      rw [hdrop] at hstart
      have hsize := hstart.atEnd_iff.2 rfl
      rw [atEnd, decide_eq_true_eq, size, hstart.text_eq] at hsize
      exact .inr ⟨rfl, hstart.toBeside, hsize⟩
    | cons c later =>
      rw [hdrop] at hstart
      exact .inl ⟨c, later, _, rfl, hstart⟩
  -- beyond the end there are no blanks, so the reader stays where it is
  · obtain rfl : rest = [] := h.rest_eq
    have hend : text.utf8ByteSize ≤ r.position := Nat.le_of_lt h.size_lt
    have hstart : r.skipWhile isBlankByte (r.size + 1) = r := by
      rw [ByteReader.skipWhile, h.byte_eq_zero hend]
      rfl
    rw [hstart]
    exact .inr ⟨rfl, h.toBeside, hend⟩

/-- **The next token is that of the lexer**, and the reader goes on beside it. -/
theorem nextToken? (h : r.Stands l) :
    ∃ after, r.nextToken? = some (l.nextToken.1, after) ∧ after.Stands l.nextToken.2 := by
  rw [ByteReader.nextToken?, Lexer.nextToken, Cursor.next]
  rcases h.skipBlanks rfl with ⟨c, rest, before, hdrop, hstart⟩ | ⟨hdrop, hstart, hend⟩
  · obtain ⟨after, used, hread, hafter⟩ := hstart.readToken?
    rw [hdrop, hread, Option.map_some, hstart.line_eq, hstart.column_eq]
    exact ⟨after, rfl, .inl ⟨used, hafter⟩⟩
  · rw [hdrop, hstart.readToken?_end hend, Option.map_some, hstart.line_eq, hstart.column_eq]
    exact ⟨_, rfl, .inr (hstart.past hend)⟩

theorem next? (h : r.Stands l) :
    ∃ after, r.next? = some (l.next?.1, after) ∧ after.Stands l.next?.2 := by
  rw [ByteReader.next?, Lexer.next?, h.beside.finished_eq]
  cases l.finished with
  | true => exact ⟨r, rfl, h⟩
  | false =>
    obtain ⟨after, hnext, hafter⟩ := h.nextToken?
    rw [if_neg Bool.false_ne_true, if_neg Bool.false_ne_true, hnext]
    exact ⟨_, rfl, hafter.finish _⟩

/-- A reset leads to where a new reader stands. -/
theorem reset (h : r.Stands l) : r.reset.Stands l.reset := by
  rw [ByteReader.reset, Lexer.reset, h.beside.text_eq]
  exact ofText l.text

/-- **One call answers as the lexer does**, and the reader goes on beside it. -/
theorem call? (h : r.Stands l) (call : Call) :
    ∃ after, r.call? call = some ((l.step call.step).1, after) ∧
      after.Stands (l.step call.step).2 := by
  cases call with
  | next =>
    obtain ⟨after, hnext, hafter⟩ := h.next?
    rw [ByteReader.call?, hnext]
    exact ⟨after, rfl, hafter⟩
  | nextToken =>
    obtain ⟨after, hnext, hafter⟩ := h.nextToken?
    rw [ByteReader.call?, hnext]
    exact ⟨after, rfl, hafter⟩
  | reset => exact ⟨r.reset, rfl, h.reset⟩

/-- Any number of calls answer as the lexer does. -/
theorem calls? (h : r.Stands l) (calls : List Call) :
    ∃ after, r.calls? calls = some ((l.drive (calls.map Call.step)).1, after) ∧
      after.Stands (l.drive (calls.map Call.step)).2 := by
  induction calls generalizing r l with
  | nil => exact ⟨r, rfl, h⟩
  | cons call calls ih =>
    obtain ⟨next, hcall, hnext⟩ := h.call? call
    obtain ⟨after, hcalls, hafter⟩ := ih hnext
    refine ⟨after, ?_, hafter⟩
    rw [ByteReader.calls?, hcall]
    dsimp only [Option.bind_eq_bind, Option.bind_some]
    rw [hcalls]
    rfl

end Stands

/-! ## Slices beside a lexer -/

/-- A slice that does not fail has its ends in order, inside the text and on boundaries. -/
theorem bounds_of_isSome_slice? {text : String} {start stop : Nat}
    (h : (slice? text start stop).isSome = true) :
    start ≤ stop ∧ stop ≤ text.utf8ByteSize ∧ isBoundary text start = true ∧
      isBoundary text stop = true := by
  rw [slice?] at h
  split at h
  · assumption
  · cases h

/-- What starts no token is looked for in the rest of the text. -/
theorem bounds_of_illegal {r : ByteReader} {s : Slice} (h : s ∈ r.tokenSlice?)
    (hs : s.purpose = .illegal) : s.start = r.position ∧ s.stop = r.size := by
  rw [tokenSlice?] at h
  cases hsymbol : r.readSymbol? with
  | some reading =>
    rw [hsymbol] at h
    cases h
  | none =>
    rw [hsymbol] at h
    dsimp only at h
    split at h
    · cases h
      cases hs
    · split at h
      · cases h
      · split at h
        · cases h
          cases hs
        · split at h
          · cases h
            cases hs
          · cases h
            exact ⟨rfl, rfl⟩

/-- The end of the input takes no slice. -/
theorem Beside.tokenSlice?_end {r : ByteReader} {text : String} {p : Position} {finished : Bool}
    (h : Beside r ⟨text, ⟨[], p⟩, finished⟩) (hend : text.utf8ByteSize ≤ r.position) :
    r.tokenSlice? = none := by
  have hatEnd : r.atEnd = true := by
    rw [atEnd, decide_eq_true_eq, size, h.text_eq]
    exact hend
  rw [tokenSlice?, readSymbol?, h.byte_eq_zero hend]
  exact if_pos (show _ ∧ _ from ⟨rfl, hatEnd⟩)

/-- **The slice for the next token does not fail**, and the one for a character that starts no token
has this character in it. -/
theorem Stands.nextSlice? {r : ByteReader} {l : Lexer} (h : r.Stands l) :
    ∀ s ∈ r.nextSlice?, s.start ≤ s.stop ∧ s.stop ≤ l.text.utf8ByteSize ∧
      ByteReader.isBoundary l.text s.start = true ∧ ByteReader.isBoundary l.text s.stop = true ∧
      ∃ cut, slice? l.text s.start s.stop = some cut ∧
        (s.purpose = .illegal → cut.toList ≠ []) := by
  intro s hs
  rw [ByteReader.nextSlice?] at hs
  rcases h.skipBlanks rfl with ⟨c, rest, before, -, hstart⟩ | ⟨-, hstart, hend⟩
  · obtain ⟨after, used, hread, -⟩ := hstart.readToken?
    have hsome := (isSome_readToken? _).1 (by rw [hread]; rfl) s hs
    rw [hstart.text_eq] at hsome
    obtain ⟨cut, hcut⟩ := Option.isSome_iff_exists.1 hsome
    obtain ⟨hle, hsize, hfirst, hlast⟩ := bounds_of_isSome_slice? hsome
    refine ⟨hle, hsize, hfirst, hlast, cut, hcut, fun hillegal ↦ ?_⟩
    obtain ⟨hslice, -⟩ := hstart.readIllegal?
    obtain ⟨hfirst, hlast⟩ := bounds_of_illegal hs hillegal
    rw [← hfirst, ← hlast, hcut, Option.some_inj] at hslice
    rw [hslice, String.toList_ofList]
    exact List.cons_ne_nil c rest
  · rw [hstart.tokenSlice?_end hend] at hs
    cases hs

/-- **A reader of bytes never slices wrongly**, whatever is called in whatever order.

* All calls are answered, which is to say that no slice fails, and the answers are those of a lexer
  on characters.
* Before and after each call the current byte is the one at the position, or zero past the end, and
  the byte after it is read next.  The position is a boundary, or beyond the end of the text.
* The slice that the next token takes, if it takes one, has its ends in order, inside the text and
  on boundaries.  If it is taken for a character that starts no token, there is such a character in
  it. -/
theorem calls_agree (text : String) (calls : List Call) :
    ∃ r, (ofText text).calls? calls =
        some (((Lexer.ofText text).drive (calls.map Call.step)).1, r) ∧
      r.text = text ∧ r.readPosition = r.position + 1 ∧ r.byte = byteAt text r.position ∧
      (isBoundary text r.position = true ∨ text.utf8ByteSize < r.position) ∧
      ∀ s ∈ r.nextSlice?, s.start ≤ s.stop ∧ s.stop ≤ text.utf8ByteSize ∧
        isBoundary text s.start = true ∧ isBoundary text s.stop = true ∧
        ∃ cut, slice? text s.start s.stop = some cut ∧
          (s.purpose = .illegal → cut.toList ≠ []) := by
  obtain ⟨r, hcalls, hr⟩ := (Stands.ofText text).calls? calls
  have htext : ((Lexer.ofText text).drive (calls.map Call.step)).2.text = text :=
    (Lexer.remembers_drive text _).text_eq
  have hboundary := hr.isBoundary
  have hslice := hr.nextSlice?
  rw [htext] at hboundary hslice
  have hrtext : r.text = text := hr.beside.text_eq.trans htext
  refine ⟨r, hcalls, hrtext, hr.beside.readPosition_eq, ?_, hboundary, hslice⟩
  rw [hr.beside.byte_eq, hrtext]

end ByteReader
end MonkeyLang
