import MonkeyLang.Token

/-!
# The token at the front of a text

`scan c cs` cuts one token off the text `c :: cs`, which starts with no blank.  Words and numbers
are as long as they can be, two-character symbols win over one-character ones, and a string runs to
the next quote.  Any character that starts nothing else is a token of its own, so that scanning
never fails.

`spelling_scan` is the law of the whole file: the spelling of the token, followed by what is left,
is the text that was scanned.  Nothing is lost, and nothing is read twice.  The other two facts
that all later proofs need are that a scan uses up text (`length_scan_le`) and which spellings come
back as the token that they spell, which is the subject of the layout of tokens.

Letters are ASCII letters and the underscore, and digits are ASCII digits.  So a word ends before a
letter of any other alphabet, and that letter is an illegal token; numbers and words can touch, as
in `12ab`, which is two tokens.
-/

set_option autoImplicit false

namespace MonkeyLang

/-! ## Classes of characters -/

/-- The characters that stand between tokens: space, tab, line feed and carriage return. -/
def isBlank (c : Char) : Bool := c == ' ' || c == '\t' || c == '\n' || c == '\r'

/-- The characters of words: ASCII letters and the underscore. -/
def isLetter (c : Char) : Bool := c.isAlpha || c == '_'

/-- The characters inside a string: all but the quote. -/
def isQuotable (c : Char) : Bool := c != '"'

/-! ## One token -/

/-- The rest of a string whose opening quote was read.  The quotes are no part of the text of a
string.  Nothing in a string has a special meaning, so a string cannot hold a quote. -/
def scanString (cs : List Char) : TokenKind × List Char :=
  match cs.dropWhile isQuotable with
  | [] => (.unterminated (String.ofList (cs.takeWhile isQuotable)), [])
  | _ :: rest => (.string (String.ofList (cs.takeWhile isQuotable)), rest)

/-- The longest symbol that starts with the symbol `s` when `cs` follows it. -/
def scanSymbol (s : Symbol) (cs : List Char) : TokenKind × List Char :=
  match s.beforeEquals?, cs with
  | some longer, '=' :: rest => (.symbol longer, rest)
  | _, _ => (.symbol s, cs)

/-- The first token of `c :: cs`, where `c` is no blank, and the text after it.  One character
decides which kind of token it is, and the token is then as long as possible. -/
def scan (c : Char) (cs : List Char) : TokenKind × List Char :=
  if isLetter c then
    (.ofWord (String.ofList (c :: cs.takeWhile isLetter)), cs.dropWhile isLetter)
  else if c.isDigit then
    (.int (String.ofList (c :: cs.takeWhile Char.isDigit)), cs.dropWhile Char.isDigit)
  else if c = '"' then
    scanString cs
  else
    match Symbol.ofChar? c with
    | some s => scanSymbol s cs
    | none => (.illegal c, cs)

/-! ## Nothing is lost -/

theorem Symbol.spelling_of_ofChar? {c : Char} {s : Symbol} (h : Symbol.ofChar? c = some s) :
    s.spelling.toList = [c] := by
  unfold Symbol.ofChar? at h
  split at h <;> simp_all <;> subst h <;> decide

theorem Symbol.spelling_of_beforeEquals? {s longer : Symbol} (h : s.beforeEquals? = some longer) :
    longer.spelling.toList = s.spelling.toList ++ ['='] := by
  cases s <;> simp [Symbol.beforeEquals?] at h <;> subst h <;> decide

theorem spelling_scanString (cs : List Char) :
    (scanString cs).1.spelling ++ (scanString cs).2 = '"' :: cs := by
  have hcs := List.takeWhile_append_dropWhile (p := isQuotable) (l := cs)
  unfold scanString
  split
  · rename_i h
    rw [h] at hcs
    simpa [TokenKind.spelling] using hcs
  · rename_i q rest h
    rw [h] at hcs
    have hq : isQuotable q = false := by
      have := List.head?_dropWhile_not isQuotable cs
      simpa [h] using this
    have hq' : q = '"' := by simpa [isQuotable] using hq
    subst hq'
    simpa [TokenKind.spelling] using hcs

theorem spelling_scanSymbol (s : Symbol) (cs : List Char) :
    (scanSymbol s cs).1.spelling ++ (scanSymbol s cs).2 = s.spelling.toList ++ cs := by
  unfold scanSymbol
  split
  · rename_i longer rest h
    simp [TokenKind.spelling, TokenKind.literal, Symbol.spelling_of_beforeEquals? h]
  · simp [TokenKind.spelling, TokenKind.literal]

/-- **The token and the text after it are the text that was scanned.** Nothing is lost, and the
kind alone tells how much was cut off. -/
theorem spelling_scan (c : Char) (cs : List Char) :
    (scan c cs).1.spelling ++ (scan c cs).2 = c :: cs := by
  unfold scan
  split
  · simp [List.takeWhile_append_dropWhile]
  · split
    · simp [TokenKind.spelling, TokenKind.literal, List.takeWhile_append_dropWhile]
    · split
      · rename_i h
        subst h
        exact spelling_scanString cs
      · split
        · rename_i s h
          rw [spelling_scanSymbol, Symbol.spelling_of_ofChar? h]
          rfl
        · simp [TokenKind.spelling, TokenKind.literal]

theorem length_dropWhile_le (p : Char → Bool) (cs : List Char) :
    (cs.dropWhile p).length ≤ cs.length :=
  (List.dropWhile_suffix p).length_le

/-- Scanning uses up at least the first character. -/
theorem length_scan_le (c : Char) (cs : List Char) : (scan c cs).2.length ≤ cs.length := by
  unfold scan
  split
  · exact length_dropWhile_le _ _
  · split
    · exact length_dropWhile_le _ _
    · split
      · have := length_dropWhile_le isQuotable cs
        unfold scanString
        split
        · simp
        · rename_i h
          rw [h] at this
          simp at this ⊢
          omega
      · split
        · unfold scanSymbol
          split <;> simp
        · simp

end MonkeyLang
