import MonkeyLang.Parse
import MonkeyLang.Program.Render
import MonkeyLang.Program.Same

/-!
# Reading a rendered program

Whether the text of a program reads back as that program.  The check computes its answer, so it can
be asked about a single program, and it is about that program only; what holds of all programs that
were ever read is `reparse_render`.
-/

set_option autoImplicit false

namespace MonkeyLang

/-- Whether the text of a program can be read without error and gives the program up to layout. -/
def Program.rereads (p : Program) : Bool :=
  let again := parse p.render
  again.errors.isEmpty && again.program.same p

end MonkeyLang
