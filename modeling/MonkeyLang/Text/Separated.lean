/-!
# Texts with separators between them

Parameter lists, array elements and hash pairs are all written the same way: the texts one after
the other with a separator *between* two of them and none at either end.

`String.intercalate` does the same.  The recursion here follows the shape in which lists are read
back, a first element and then others with a separator before each, so that the proofs about
reading a rendered text can go by it.
-/

set_option autoImplicit false

namespace MonkeyLang

/-- The texts in order, with `separator` between each two neighbours. -/
def separated (separator : String) : List String → String
  | [] => ""
  | [text] => text
  | text :: next :: rest => text ++ separator ++ separated separator (next :: rest)

@[simp]
theorem separated_nil (separator : String) : separated separator [] = "" := rfl

@[simp]
theorem separated_singleton (separator text : String) : separated separator [text] = text := rfl

theorem separated_cons_cons (separator text next : String) (rest : List String) :
    separated separator (text :: next :: rest) =
      text ++ separator ++ separated separator (next :: rest) := rfl

end MonkeyLang
