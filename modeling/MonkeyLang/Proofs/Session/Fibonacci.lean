import MonkeyLang.Benchmark
import MonkeyLang.Proofs.Eval.Arithmetic
import MonkeyLang.Proofs.Eval.Frame
import MonkeyLang.Proofs.Session.Concatenation
import MonkeyLang.Proofs.Session.Meaning
import Mathlib.Data.Nat.Fib.Basic
import Mathlib.Tactic.NormNum.NatFib

/-!
# The benchmark computes Fibonacci numbers

The text of the benchmark is read as the program `Benchmark.program`, whatever the number asked for
(`Benchmark.parse_text`).  A call of its function finds the function again by its name, in the
scope around its own, so that the calls for smaller arguments can be followed by induction
(`Benchmark.settles_call`).  They leave the scopes that were there before as they are, which is why
the second one finds the argument and the function unchanged.

The sums wrap around, so what comes out is the wrapped Fibonacci number: `measure_fibonacci`.

## From text to tree

The text consists of a fixed part and one that contains the number.  The fixed part is read by
evaluation: it is a closed term, and the kernel computes the tree.  The other part is different for
each number and cannot be computed.  It lays out as five tokens, whatever the number is, and these
are a call in the grammar.  That the two parts can be read one after the other is the theorem about
texts that end with a semicolon.

The tree is then exchanged for one whose tokens all stand at one place, since places do not matter
for a run, and everything that follows is about this tree.

## Depth and time

A run makes a number of calls that grows as fast as its result, and for most of the numbers no
computer will ever finish it.  The theorem says that the run ends and with what value, given depth
enough.  How many calls there are is not part of it.  The induction follows the definition of
`Nat.fib`, with two calls in each step, and never the calls of a run one by one.
-/

set_option autoImplicit false

namespace MonkeyLang

open Grammar

/-! ## Words -/

/-- Small numbers are the same if their words are.  The arguments of calls are words.  They count
down from a number that fits, so none of them is wrapped, in contrast to the results. -/
theorem ofNat_beq_ofNat {m n : Nat} (hm : m < 2 ^ 63) (hn : n < 2 ^ 63) :
    (Int64.ofNat m == Int64.ofNat n) = decide (m = n) := by
  rw [Bool.eq_iff_iff, beq_iff_eq, decide_eq_true_iff, ← Int64.toInt_inj,
    Int64.toInt_ofNat_of_lt hm, Int64.toInt_ofNat_of_lt hn, Int.natCast_inj]

theorem toInt_ofNat_eq_wrap (n : Nat) : (Int64.ofNat n).toInt = wrap n := by
  rw [← Int64.ofInt_eq_ofNat, toInt_ofInt_eq_wrap]

/-! ## Scopes

A call looks up its parameter in its own scope and the function in the scope around it. -/

/-- A name is found in the scope that binds it. -/
theorem Store.lookup_of_binding? {s : Store} {id : ScopeId} {name : String} {v : Value}
    (h : s.binding? id name = some v) : s.lookup id name = some v := by
  rw [binding?, Option.bind_eq_some_iff] at h
  obtain ⟨scope, hscope, hv⟩ := h
  rw [lookup, hscope]
  simp only [hv]

/-- A name that a scope does not bind is found further out. -/
theorem Store.lookup_of_outer {s : Store} {id outer : ScopeId} {bindings : List (String × Value)}
    (hscope : s.scope? id = some ⟨bindings, some outer⟩) (hlt : outer < id) {name : String}
    (hname : Dict.get? bindings name = none) : s.lookup id name = s.lookup outer name := by
  rw [lookup, hscope]
  simp only [hname, if_pos hlt]

/-- Scopes that were there keep their bindings. -/
theorem Store.Extends.binding? {s t : Store} (h : s.Extends t) {id : ScopeId} {name : String}
    {v : Value} (hv : s.binding? id name = some v) : t.binding? id name = some v := by
  rw [Store.binding?, Option.bind_eq_some_iff] at hv
  obtain ⟨scope, hscope, hv⟩ := hv
  rw [Store.binding?, h.same id (lt_size_of_scope? hscope), hscope, Option.bind_some, hv]

theorem Store.extends_add (s : Store) (scope : Scope) : s.Extends (s.add scope) :=
  ⟨by rw [size_add]; exact Nat.le_succ _, fun _ hid ↦ scope?_add s scope hid⟩

/-- What a call leaves extends what it found. -/
theorem Eval.extends_of_settles_apply {f v : Value} {arguments : List Value} {m m' : Machine}
    (h : Settles (fun depth ↦ Eval.apply depth f arguments) m (.done v m')) :
    m.store.Extends m'.store := by
  obtain ⟨least, h⟩ := h
  have hdone : Eval.apply least f arguments m = .done v m' := h least (Nat.le_refl _)
  have hfresh := Eval.fresh_apply least f arguments m
  rwa [hdone] at hfresh

namespace Benchmark

/-! ## The program -/

def name (text : String) : Identifier := ⟨⟨.ident text, .start⟩, text⟩

def numeral (n : Nat) : Expr := .int ⟨.int (Decimal.ofNat n), .start⟩ (Int64.ofNat n)

def operation (op : Operator) (a b : Expr) : Expr := .binary ⟨.symbol op.symbol, .start⟩ op a b

def choice (condition : Expr) (consequence alternative : Stmt) : Expr :=
  .cond ⟨.keyword .kwIf, .start⟩ condition ⟨⟨.symbol .leftBrace, .start⟩, [consequence]⟩
    (some ⟨⟨.symbol .leftBrace, .start⟩, [alternative]⟩)

def bare (e : Expr) : Stmt := .exprStmt e.token e

/-- A call of the function. -/
def call (argument : Expr) : Expr :=
  .call ⟨.symbol .leftParen, .start⟩ (.ident (name "fibonacci")) [argument]

/-- The parameter of the function. -/
def x : Expr := .ident (name "x")

/-- The sum of the two calls. -/
def sum : Expr :=
  operation .plus (call (operation .minus x (numeral 1))) (call (operation .minus x (numeral 2)))

/-- The statement that the function consists of. -/
def body : Stmt :=
  bare (choice (operation .equal x (numeral 0)) (bare (numeral 0))
    (bare (choice (operation .equal x (numeral 1))
      (.returnStmt ⟨.keyword .kwReturn, .start⟩ (some (numeral 1))) (bare sum))))

/-- The statement that binds the function. -/
def definition : Stmt :=
  .letStmt ⟨.keyword .kwLet, .start⟩ (name "fibonacci")
    (.function ⟨.keyword .kwFunction, .start⟩ [name "x"] ⟨⟨.symbol .leftBrace, .start⟩, [body]⟩)

/-- The program of the benchmark, with all its tokens at one place. -/
def program (n : Nat) : Program := ⟨[definition, bare (call (numeral n))]⟩

/-- How the fixed part of the text is read, and that it ends with a semicolon. -/
theorem parse_fibonacci :
    (parse fibonacci).errors = [] ∧ (parse fibonacci).program.same ⟨[definition]⟩ = true ∧
      (tokenize fibonacci).dropLast.getLast?.map Token.kind = some (.symbol .semicolon) := by
  decide +kernel

/-- The part of the text that depends on the number. -/
theorem layout_call (n : Nat) :
    Layout [.ident "fibonacci", .symbol .leftParen, .int (Decimal.ofNat n), .symbol .rightParen,
      .symbol .semicolon] ("\nfibonacci(" ++ Decimal.ofNat n ++ ");").toList := by
  have hend : Layout [] [] := .finish (by simp)
  have hsemicolon : Layout [.symbol .semicolon] ([';'] ++ []) := .next trivial trivial hend
  have hclose : Layout [.symbol .rightParen, .symbol .semicolon] ([')'] ++ [';']) :=
    .next trivial trivial hsemicolon
  have hnumeral := Layout.int (Decimal.wellFormed_ofNat n) (delimited_cons (by decide) _) hclose
  have hopen : Layout (.symbol .leftParen :: _)
      (['('] ++ ((Decimal.ofNat n).toList ++ [')', ';'])) :=
    .next trivial trivial hnumeral
  have hname : (TokenKind.ident "fibonacci").WellFormed :=
    ⟨by simp, by simp [isLetter, Char.isAlpha, Char.isUpper, Char.isLower], by simp [reservedWords]⟩
  have hfirst : Layout (.ident "fibonacci" :: _) (['\n'] ++ ("fibonacci".toList ++ _)) :=
    .token (by simp [isBlank]) hname (stopsAt_cons.2 (by decide)) hopen
  have htext : ("\nfibonacci(" ++ Decimal.ofNat n ++ ");").toList =
      ['\n'] ++ ("fibonacci".toList ++ (['('] ++ ((Decimal.ofNat n).toList ++ [')', ';']))) := by
    simp
  rw [htext]
  exact hfirst

/-- The call is read as a call. -/
theorem parse_call {n : Nat} (hn : n < 2 ^ 63) :
    (parse ("\nfibonacci(" ++ Decimal.ofNat n ++ ");")).errors = [] ∧
      (parse ("\nfibonacci(" ++ Decimal.ofNat n ++ ");")).program.same ⟨[bare (call (numeral n))]⟩ =
        true := by
  have hkinds := (layout_iff _ _).1 (layout_call n)
  simp only [List.map_eq_cons_iff, List.map_eq_nil_iff] at hkinds
  obtain ⟨callee, _, htokens, hcallee, paren, _, rfl, hparen, argument, _, rfl, hargument, close, _,
    rfl, hclose, semicolon, _, rfl, hsemicolon, rfl⟩ := hkinds
  have hvalue : Decimal.value (Decimal.ofNat n).toList = n := Decimal.value_ofNat n
  have hnumber : Phrase .atom [argument] (.int argument (Int64.ofNat n)) := by
    have hint := Phrase.int hargument (by rw [hvalue]; exact hn)
    rwa [hvalue] at hint
  have hcall := Phrase.call (.tighter (.ident hcallee)) hparen
    (.some (.one (hnumber.loosen (by decide)))) hclose
  have hderives : Derives (tokenize ("\nfibonacci(" ++ Decimal.ofNat n ++ ");"))
      ⟨[.exprStmt paren (.call paren (.ident ⟨callee, "fibonacci"⟩)
        [.int argument (Int64.ofNat n)])]⟩ := by
    refine ⟨_, _, rfl, rfl, ?_⟩
    rw [htokens]
    exact .cons (.expression (hcall.loosen (by decide)) (.inl ⟨semicolon, rfl, hsemicolon⟩)) .none
  obtain ⟨herrors, hprogram⟩ := parseProgram_eq_ok.1 (parseProgram_of_derives hderives)
  refine ⟨herrors, ?_⟩
  rw [hprogram, Program.same_iff]
  simp [Program.mapTokens, bare, call, numeral, name, Token.forget, Identifier.mapToken, Expr.token,
    hcallee, hparen, hargument]

/-- **The text of the benchmark is read as its program.** -/
theorem parse_text {n : Nat} (hn : n < 2 ^ 63) :
    (parse (text n)).errors = [] ∧ (parse (text n)).program.same (program n) = true := by
  obtain ⟨herrors, hdefinition, hlast⟩ := parse_fibonacci
  obtain ⟨hnone, hcall⟩ := parse_call hn
  have hsemicolon : EndsWithSemicolon (tokenize fibonacci).dropLast := by
    obtain ⟨t, ht, hkind⟩ := Option.map_eq_some_iff.1 hlast
    exact ⟨t, ht, hkind⟩
  have htext : text n = fibonacci ++ ("\nfibonacci(" ++ Decimal.ofNat n ++ ");") := by
    simp only [text, String.append_assoc]
  rw [htext, parse_append_of_semicolon herrors hsemicolon, hnone]
  refine ⟨rfl, ?_⟩
  have hforget : ∀ f : Position → Position, Token.forget ∘ Token.move f = Token.forget :=
    fun _ ↦ rfl
  rw [Program.same_iff, Program.mapTokens, Program.mk.injEq] at hdefinition hcall ⊢
  rw [mapTokensStmts_append, mapTokensStmts_mapTokensStmts, hforget, hdefinition, hcall]
  simp [Program.mapTokens, program]

/-! ## Calls -/

/-- The function, made in the scope `scope`. -/
def closure (origin : Origin) (scope : ScopeId) : Closure :=
  ⟨["x"], ⟨⟨.symbol .leftBrace, .start⟩, [body]⟩, origin, scope⟩

/-- The scope `id` is that of a call of the function `f` with the argument `k`, and the scope
around it binds the function. -/
structure InCall (f : Closure) (k : Nat) (id : ScopeId) (s : Store) : Prop where
  scope : s.scope? id = some ⟨[("x", .int (Int64.ofNat k))], some f.scope⟩
  older : f.scope < id
  known : s.binding? f.scope "fibonacci" = some (.function f)

namespace InCall

variable {f : Closure} {k : Nat} {frame : Frame} {m m' : Machine}

/-- More scopes do not matter for a call. -/
theorem extend (h : InCall f k frame.scope m.store) (hextends : m.store.Extends m'.store) :
    InCall f k frame.scope m'.store where
  scope := by rw [hextends.same _ (Store.lt_size_of_scope? h.scope), h.scope]
  older := h.older
  known := hextends.binding? h.known

/-- The parameter is found in the scope of the call. -/
theorem comesTo_x (h : InCall f k frame.scope m.store) :
    x.ComesTo frame m (.done (.int (Int64.ofNat k)) m) := by
  refine .ident (Store.lookup_of_binding? ?_)
  rw [Store.binding?, h.scope]
  rfl

theorem comesTo_equal (h : InCall f k frame.scope m.store) (hk : k < 2 ^ 63) {n : Nat}
    (hn : n < 2 ^ 63) :
    (operation .equal x (numeral n)).ComesTo frame m (.done (.bool (decide (k = n))) m) := by
  rw [← ofNat_beq_ofNat hk hn]
  exact h.comesTo_x.binary (.int _ _) _ _

/-- The first statement runs where the argument is the number asked for. -/
theorem choice_eq (h : InCall f k frame.scope m.store) (hk : k < 2 ^ 63) {s s' : Stmt}
    {o : Outcome Signal Machine Value} (hs : s.ComesTo frame m o) :
    (bare (choice (operation .equal x (numeral k)) s s')).ComesTo frame m o :=
  .exprStmt (.cond_true (h.comesTo_equal hk hk) (decide_eq_true rfl) hs _ _ _) _

/-- The second one runs where it is not. -/
theorem choice_ne (h : InCall f k frame.scope m.store) (hk : k < 2 ^ 63) {n : Nat} (hn : n < 2 ^ 63)
    (hne : k ≠ n) {s s' : Stmt} {o : Outcome Signal Machine Value} (hs : s'.ComesTo frame m o) :
    (bare (choice (operation .equal x (numeral n)) s s')).ComesTo frame m o :=
  .exprStmt (.cond_false (h.comesTo_equal hk hn) (decide_eq_false hne) hs _ _ _) _

/-- A call for a smaller argument. -/
theorem comesTo_call (h : InCall f k frame.scope m.store) (n : Nat) {v : Value}
    (happly : Settles
      (fun depth ↦ Eval.apply depth (.function f) [.int (Int64.ofNat k - Int64.ofNat n)]) m
      (.done v m')) :
    (call (operation .minus x (numeral n))).ComesTo frame m (.done v m') := by
  refine .call (.ident ?_) (h.comesTo_x.binary (.int _ _) _ _) happly _
  rw [Store.lookup_of_outer h.scope h.older rfl]
  exact Store.lookup_of_binding? h.known

/-- For zero the value of the statement is the result. -/
theorem body_zero (h : InCall f 0 frame.scope m.store) :
    body.ComesTo frame m (.done (.int (Int64.ofNat 0)) m) :=
  h.choice_eq (by decide) (.exprStmt (.int _ _) _)

/-- For one there is a `return`. -/
theorem body_one (h : InCall f 1 frame.scope m.store) :
    body.ComesTo frame m (.stop (.returned (.int (Int64.ofNat 1))) m) :=
  h.choice_ne (by decide) (by decide) (by decide)
    (h.choice_eq (by decide) (.returnStmt (.int _ _) _))

/-- The second call finds the argument and the function where the first one found them. -/
theorem body_more (h : InCall f (k + 2) frame.scope m.store) (hk : k + 2 < 2 ^ 63) {a b : Int64}
    {m'' : Machine}
    (hfirst : Settles (fun depth ↦ Eval.apply depth (.function f) [.int (Int64.ofNat (k + 1))]) m
      (.done (.int a) m'))
    (hsecond : Settles (fun depth ↦ Eval.apply depth (.function f) [.int (Int64.ofNat k)]) m'
      (.done (.int b) m'')) :
    body.ComesTo frame m (.done (.int (a + b)) m'') := by
  refine h.choice_ne hk (by decide) (by omega) (h.choice_ne hk (by decide) (by omega) ?_)
  have hleft : Int64.ofNat (k + 2) - Int64.ofNat 1 = Int64.ofNat (k + 1) := by
    rw [Int64.ofNat_add (k + 1) 1, Int64.add_sub_cancel]
  have hright : Int64.ofNat (k + 2) - Int64.ofNat 2 = Int64.ofNat k := by
    rw [Int64.ofNat_add k 2, Int64.add_sub_cancel]
  rw [← hleft] at hfirst
  rw [← hright] at hsecond
  have hlater := h.extend (Eval.extends_of_settles_apply hfirst)
  exact .exprStmt ((h.comesTo_call 1 hfirst).binary (hlater.comesTo_call 2 hsecond) _ _) _

end InCall

variable {origin : Origin} {scope : ScopeId}

/-- The machine on which the body of a call runs. -/
def entered (m : Machine) (scope : ScopeId) (k : Nat) : Machine :=
  { m with store := m.store.add ⟨[("x", .int (Int64.ofNat k))], some scope⟩ }

/-- The body of a call starts in a scope with the parameter, beside the function in the scope
around it. -/
theorem inCall_entered {m : Machine}
    (hknown : m.store.binding? scope "fibonacci" = some (.function (closure origin scope)))
    (k : Nat) : InCall (closure origin scope) k m.store.size (entered m scope k).store where
  scope := Store.scope?_add_size m.store _
  older := by
    rw [Store.binding?, Option.bind_eq_some_iff] at hknown
    obtain ⟨content, hscope, -⟩ := hknown
    exact Store.lt_size_of_scope? hscope
  known := (m.store.extends_add _).binding? hknown

theorem settles_of_body {k : Nat} {m : Machine} {o : Outcome Signal Machine Value}
    (h : body.ComesTo ⟨m.store.size, origin.unit⟩ (entered m scope k) o) :
    Settles
      (fun depth ↦ Eval.apply depth (.function (closure origin scope)) [.int (Int64.ofNat k)]) m
      (Eval.boundary (fun _ ↦ o) m) :=
  Eval.settles_apply (f := closure origin scope) rfl h

/-- **A call computes the Fibonacci number of its argument.** -/
theorem settles_call {k : Nat} (hk : k < 2 ^ 63) {m : Machine}
    (hknown : m.store.binding? scope "fibonacci" = some (.function (closure origin scope))) :
    ∃ m', Settles
      (fun depth ↦ Eval.apply depth (.function (closure origin scope)) [.int (Int64.ofNat k)]) m
      (.done (.int (Int64.ofNat (Nat.fib k))) m') := by
  induction k using Nat.twoStepInduction generalizing m with
  | zero => exact ⟨_, settles_of_body (InCall.body_zero (inCall_entered hknown 0))⟩
  | one => exact ⟨_, settles_of_body (InCall.body_one (inCall_entered hknown 1))⟩
  | more k ih₀ ih₁ =>
    have hin := inCall_entered hknown (k + 2)
    obtain ⟨m₁, hfirst⟩ := ih₁ (by omega) hin.known
    have hextends := Eval.extends_of_settles_apply hfirst
    obtain ⟨m₂, hsecond⟩ := ih₀ (by omega) (hextends.binding? hin.known)
    have hsum : Int64.ofNat (Nat.fib (k + 2)) =
        Int64.ofNat (Nat.fib (k + 1)) + Int64.ofNat (Nat.fib k) := by
      rw [Nat.fib_add_two, Nat.add_comm, Int64.ofNat_add]
    rw [hsum]
    exact ⟨m₂, settles_of_body (InCall.body_more hin hk hfirst hsecond)⟩

/-! ## The whole program -/

/-- The program comes to the Fibonacci number of its number. -/
theorem settles_program {n : Nat} (hn : n < 2 ^ 63) (m : Machine) :
    ∃ m', Settles (fun depth ↦ (program n).evalFresh depth) m
      (.done (.int (Int64.ofNat (Nat.fib n))) m') := by
  let frame : Frame := ⟨m.store.size, m.units⟩
  let f : Closure := closure ⟨m.units, .start⟩ m.store.size
  let bound : Machine :=
    ⟨(m.store.add ⟨[], none⟩).bind m.store.size "fibonacci" (.function f), m.printed, m.units + 1⟩
  have hknown : bound.store.binding? m.store.size "fibonacci" = some (.function f) := by
    rw [Store.binding?, Store.scope?_bind, if_pos rfl, Store.scope?_add_size]
    rfl
  obtain ⟨m', hcall⟩ := settles_call hn hknown
  have hlast : (bare (call (numeral n))).ComesTo frame bound
      (.done (.int (Int64.ofNat (Nat.fib n))) m') :=
    .exprStmt (.call (.ident (Store.lookup_of_binding? hknown)) (.int _ _) hcall _) _
  have hprogram : Settles (fun depth ↦ Eval.statements depth frame .null (program n).statements)
      ⟨m.store.add ⟨[], none⟩, m.printed, m.units + 1⟩ _ :=
    Stmt.ComesTo.letStmt_cons (.function _ _ _) _ _ hlast
  obtain ⟨least, hleast⟩ := hprogram
  refine ⟨m', least, fun depth hle ↦ ?_⟩
  show (program n).eval depth _ _ = _
  rw [Program.eval_eq_unwound]
  exact congrArg Outcome.unwound (hleast depth hle)

end Benchmark

/-- A host can tell an integer from every other value. -/
theorem Value.LooksLike.eq_int {v : Value} {n : Int64} (h : v.LooksLike (.int n)) : v = .int n := by
  have htree := h.tree
  cases v <;> simp only [Value.tree, Tree.int.injEq, reduceCtorEq] at htree
  rw [htree]

/-- **The benchmark computes Fibonacci numbers.**  For every unsigned 32-bit number its text is read
without error, and with depth enough its run ends with the Fibonacci number, wrapped to a signed
64-bit integer. -/
theorem measure_fibonacci {n : Nat} (h : n < Benchmark.numberLimit) :
    (parse (Benchmark.text n)).errors = [] ∧
      ∃ (v : Int64) (m : Machine) (least : Nat), v.toInt = wrap (Nat.fib n) ∧
        ∀ depth, least ≤ depth → Benchmark.measure depth n = .done (.int v) m := by
  have hn : n < 2 ^ 63 := Nat.lt_trans h (by decide)
  obtain ⟨herrors, hsame⟩ := Benchmark.parse_text hn
  obtain ⟨m, hprogram⟩ := Benchmark.settles_program hn .initial
  -- the program that was read differs from the one above in places only
  obtain ⟨o, o', ho, ho', hlike⟩ := sameOutcome_of_same hsame .initial .initial
  obtain rfl : o' = _ := ho'.unique hprogram
  refine ⟨herrors, Int64.ofNat (Nat.fib n), ?_⟩
  obtain ⟨v, m', w, m'', rfl, hw, hv⟩ | ⟨e, m', e', m'', rfl, hw, -⟩ | ⟨rfl, hw⟩ := hlike.inv
  · obtain ⟨rfl, rfl⟩ : w = _ ∧ m'' = _ := by simpa using hw.symm
    obtain rfl := hv.eq_int
    obtain ⟨least, hrun⟩ := settles_runFresh_of_ok (parseProgram_eq_ok.2 ⟨herrors, rfl⟩) ho
    exact ⟨m', least, toInt_ofNat_eq_wrap _, hrun⟩
  · exact absurd hw (by simp)
  · exact absurd hw (by simp)

/-- The first Fibonacci number that does not fit: the result is negative. -/
theorem measure_fibonacci_wraps : 93 < Benchmark.numberLimit ∧
    ∃ (v : Int64) (m : Machine) (least : Nat), v.toInt = -6246583658587674878 ∧
      ∀ depth, least ≤ depth → Benchmark.measure depth 93 = .done (.int v) m := by
  have hlimit : 93 < Benchmark.numberLimit := by decide
  have hfib : wrap (Nat.fib 93) = -6246583658587674878 := by norm_num [wrap, Int.bmod_def]
  obtain ⟨v, m, least, hv, hmeasure⟩ := (measure_fibonacci hlimit).2
  exact ⟨hlimit, v, m, least, hv.trans hfib, hmeasure⟩

end MonkeyLang
