import MonkeyLang.Benchmark
import MonkeyLang.Main
import MonkeyLang.Program.Reread
import MonkeyLang.Proofs.Eval.Arithmetic
import MonkeyLang.Proofs.Eval.Frame
import MonkeyLang.Proofs.Parse.FirstError
import MonkeyLang.Proofs.Parse.Order
import MonkeyLang.Proofs.Parse.Termination
import MonkeyLang.Proofs.Program.RoundTrip
import MonkeyLang.Proofs.Session.Boundary
import MonkeyLang.Proofs.Session.Concatenation
import MonkeyLang.Proofs.Session.Independence
import MonkeyLang.Proofs.Session.Meaning
import MonkeyLang.Proofs.Shell.Conversation
import MonkeyLang.Shell.Transcript
import MonkeyLang.Token.Bytes
import MonkeyLang.Token.Drive
import MonkeyLang.Value.Same
import MonkeyLang.Proofs.Eval.Sound
import MonkeyLang.Proofs.Session.Client
import MonkeyLang.Proofs.Session.Repeat
import MonkeyLang.Proofs.Session.Unread
import MonkeyLang.Proofs.Session.Operators
import MonkeyLang.Proofs.Session.Fibonacci
import MonkeyLang.Proofs.Token.Driven
import MonkeyLang.Proofs.Token.Spelled
import MonkeyLang.Proofs.Eval.HashLiteral
import MonkeyLang.Proofs.Parse.Literals
import MonkeyLang.Proofs.Value.Equal
import MonkeyLang.Proofs.Eval.Genuine
import MonkeyLang.Proofs.Session.Equality
import MonkeyLang.Proofs.Eval.Sequences
import MonkeyLang.Proofs.Session.Data
import MonkeyLang.Proofs.Session.Handles
import MonkeyLang.Proofs.Token.Bytes
import MonkeyLang.Proofs.Parse.Failures
