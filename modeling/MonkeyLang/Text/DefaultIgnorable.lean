import MonkeyLang.Text.Ranges

/-!
# Characters that a display leaves out

The Unicode property Default_Ignorable_Code_Point: characters that a display shows as nothing at
all unless it knows better, such as joiners, variation selectors and the fillers of Hangul
syllables.  The fillers are letters by their category, so that no rule about categories finds them.

Together with the characters without a visible form and those that are drawn onto another one,
these are the characters that a quoted text has to spell out.  The classes overlap, which does no
harm.
-/

set_option autoImplicit false

namespace MonkeyLang

/-- The ranges of characters that a display leaves out. -/
def defaultIgnorableRanges : List (Nat × Nat) :=
  [(0xad, 0xad), (0x34f, 0x34f), (0x61c, 0x61c), (0x115f, 0x1160), (0x17b4, 0x17b5),
   (0x180b, 0x180f), (0x200b, 0x200f), (0x202a, 0x202e), (0x2060, 0x206f), (0x3164, 0x3164),
   (0xfe00, 0xfe0f), (0xfeff, 0xfeff), (0xffa0, 0xffa0), (0xfff0, 0xfff8), (0x1bca0, 0x1bca3),
   (0x1d173, 0x1d17a), (0xe0000, 0xe0fff)]

/-- Whether a display leaves a character out. -/
def isDefaultIgnorable (c : Char) : Bool := inRanges defaultIgnorableRanges c

end MonkeyLang
