import MonkeyLang.Text.DefaultIgnorable
import MonkeyLang.Text.GraphemeExtend
import MonkeyLang.Text.Unprintable

/-!
# Texts in quotes

A text is shown in double quotes so that every character of it can be told.  Quotes and backslashes
get a backslash in front, the common controls have short forms, and any other character that cannot
be seen by itself is written by its code point in hexadecimal.

Which characters can be seen by themselves is a matter of three tables (`isVisible`).  Characters
outside of ASCII are shown as they are if they can be seen, so a quoted text is not an ASCII text.
-/

set_option autoImplicit false

namespace MonkeyLang

/-- Whether a character can be seen by itself: it has a visible form, no display leaves it out, and
it is not drawn onto another one. -/
def isVisible (c : Char) : Bool := isPrintable c && !isDefaultIgnorable c && !isCombining c

/-- A character by its code point, for instance `\u{1b}`. -/
def codePointEscape (c : Char) : List Char :=
  ['\\', 'u', '\x7b'] ++ Nat.toDigits 16 c.toNat ++ ['\x7d']

/-- How a character is shown between quotes. -/
def quotedChar (c : Char) : List Char :=
  if c = '"' then ['\\', '"']
  else if c = '\\' then ['\\', '\\']
  else if c = '\t' then ['\\', 't']
  else if c = '\r' then ['\\', 'r']
  else if c = '\n' then ['\\', 'n']
  else if c = '\x00' then ['\\', '0']
  else if isVisible c then [c]
  else codePointEscape c

/-- A text in quotes. -/
def quoted (text : String) : String :=
  String.ofList ('"' :: (text.toList.flatMap quotedChar ++ ['"']))

end MonkeyLang
