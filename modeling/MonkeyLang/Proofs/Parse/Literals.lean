import Mathlib.Data.List.Pairwise
import MonkeyLang.Proofs.Parse.Order
import MonkeyLang.Proofs.Parse.Soundness
import MonkeyLang.Proofs.Program.Nodes

/-!
# Function literals and their places

Every function literal of a program keeps the token `fn` that it starts with, and no two literals
keep the same one.  So the place of that token tells which literal it is: `eq_of_literal_position`.
This holds of whatever is kept of a text, even if something is wrong with the text.

The nodes of a program are listed in the order of the source, so the tokens of the literals are
some of the tokens of the text, in the same order.  `Parser.Gathers` says so of a reader that goes
on from tokens gathered before.

A function remembers its literal by this place, and not by its body, which is why the fact is
needed at all: two literals with the same body are different, and the place is what tells them
apart.

## Nothing twice

The fact is one about readers.  A reader that uses a token in two nodes would break it, and the
syntax trees do not forbid that.  The statement that is an expression does keep the token of its
expression a second time; it is no literal, though, and only the tokens of literals are listed
here.

Tokens are gathered in the order of the text only because a node comes before its parts and a
literal starts with its token.  For all tokens of a program this would be wrong: an operator is
listed before its left side.

Failing statements are dropped with everything that was gathered for them.  A sublist allows for
that.
-/

set_option autoImplicit false

namespace MonkeyLang

/-! ## The tokens of function literals -/

/-- The token of a function literal. -/
def Node.literal? : Node → Option Token
  | .expr (.function t _ _) => some t
  | _ => none

/-- The tokens of the function literals among nodes. -/
def literals (nodes : List Node) : List Token := nodes.filterMap Node.literal?

/-- The literals of two lists of nodes. -/
theorem literals_append (xs ys : List Node) : literals (xs ++ ys) = literals xs ++ literals ys :=
  List.filterMap_append

/-- A literal comes before the literals in its body. -/
theorem literals_function (t : Token) (ids : List Identifier) (b : Block) :
    literals (Expr.function t ids b).nodes = t :: literals b.nodes := rfl

/-- A node that is no function literal adds nothing to those below it. -/
theorem literals_cons {x : Node} (h : x.literal? = none) (xs : List Node) :
    literals (x :: xs) = literals xs := by
  rw [literals, List.filterMap_cons, h]
  rfl

namespace Parser

/-! ## What a reader gathers -/

/-- What is found in the result, followed by the tokens left, lies in order in what was gathered
`before`, followed by the tokens that there were.  Whatever is found together with the tokens that
are left is a sublist of what there was.  So what was found came from the front, and no token was
used twice. -/
def Gathers {α : Type} (before : List Token) (found : α → List Token) (read : Parser α) : Prop :=
  ∀ s : State,
    (read s).Post (fun v t ↦ (found v ++ t.stream.pending).Sublist (before ++ s.stream.pending))
      (fun _ t ↦ t.stream.pending.Sublist (before ++ s.stream.pending)) True

/-- What can be kept of a token that is taken. -/
def kept (t : Token) : List Token := if t.kind = .keyword .kwFunction then [t] else []

namespace Gathers

variable {α β : Type} {before : List Token} {found : α → List Token} {found' : β → List Token}

theorem pure {v : α} (h : found v = before) : Gathers before found (pure v : Parser α) :=
  fun _ ↦ h ▸ List.Sublist.refl _

theorem exhaust : Gathers before found (Action.exhaust : Parser α) := fun _ ↦ trivial

theorem halt : Gathers before found (Action.halt () : Parser α) :=
  fun _ ↦ List.sublist_append_right _ _

theorem fail (e : ParseError) : Gathers before found (fail e : Parser α) :=
  fun _ ↦ List.sublist_append_right _ _

theorem ite {c : Prop} [Decidable c] {read other : Parser α} (h : Gathers before found read)
    (h' : Gathers before found other) : Gathers before found (if c then read else other) := by
  split
  · exact h
  · exact h'

/-- It does no harm if more was gathered before. -/
theorem weaken {read : Parser α} {before' : List Token} (h : Gathers before found read)
    (hsub : before.Sublist before') : Gathers before' found read :=
  fun s ↦ (h s).imp (fun _ _ hv ↦ hv.trans (hsub.append_right _))
    fun _ _ he ↦ he.trans (hsub.append_right _)

theorem bind {read : Parser α} {next : α → Parser β} (h : Gathers before found read)
    (hnext : ∀ v, Gathers (found v) found' (next v)) : Gathers before found' (read >>= next) :=
  fun s ↦ (h s).bind fun v t ht ↦
    (hnext v t).imp (fun _ _ hw ↦ hw.trans ht) fun _ _ he ↦ he.trans ht

/-- A reader with nothing gathered before adds what it finds. -/
theorem after {read : Parser α} {next : α → Parser β} (h : Gathers [] found read)
    (hnext : ∀ v, Gathers (before ++ found v) found' (next v)) :
    Gathers before found' (read >>= next) := by
  have hread : Gathers before (fun v ↦ before ++ found v) read := by
    refine fun s ↦ (h s).imp (fun v t hv ↦ ?_) fun e t he ↦ ?_
    · rw [List.append_assoc]
      exact hv.append_left _
    · exact he.trans (List.sublist_append_right _ _)
  exact hread.bind hnext

theorem peek_bind {next : Token → Parser β} (h : ∀ t, Gathers before found' (next t)) :
    Gathers before found' (peek >>= next) :=
  fun s ↦ h s.stream.head s

/-- A token that is taken need not be kept. -/
theorem take_bind {next : Token → Parser β} (h : ∀ t, Gathers before found' (next t)) :
    Gathers before found' (take >>= next) := by
  intro s
  have htail : (before ++ s.stream.tail.pending).Sublist (before ++ s.stream.pending) := by
    rw [Stream.pending_tail]
    exact (List.tail_sublist _).append_left _
  exact (h s.stream.head ⟨s.stream.tail, s.errors⟩).imp (fun _ _ hv ↦ hv.trans htail)
    fun _ _ he ↦ he.trans htail

/-- A token that is taken first can be kept, if it is one to be kept. -/
theorem take_bind_kept {next : Token → Parser β} (h : ∀ t, Gathers (kept t) found' (next t)) :
    Gathers [] found' (take >>= next) := by
  intro s
  have hkept : (kept s.stream.head ++ s.stream.tail.pending).Sublist s.stream.pending := by
    obtain ⟨⟨pending, finish⟩, errors⟩ := s
    cases pending with
    | nil => exact List.Sublist.refl _
    | cons t ts =>
      show (kept t ++ ts).Sublist ([t] ++ ts)
      refine List.Sublist.append_right ?_ ts
      rw [kept]
      split
      · exact List.Sublist.refl _
      · exact List.nil_sublist _
  exact (h s.stream.head ⟨s.stream.tail, s.errors⟩).imp (fun _ _ hv ↦ hv.trans hkept)
    fun _ _ he ↦ he.trans hkept

theorem expect_bind {expected : TokenType} {next : Token → Parser β}
    (h : ∀ t, Gathers before found' (next t)) :
    Gathers before found' (expect expected >>= next) := by
  rw [expect, bind_assoc]
  refine .peek_bind fun t ↦ ?_
  split
  · exact .take_bind h
  · exact .fail _

theorem skipIf_bind {wanted : TokenType} {next : Unit → Parser β}
    (h : Gathers before found' (next ())) : Gathers before found' (skipIf wanted >>= next) := by
  rw [skipIf, bind_assoc]
  refine .peek_bind fun t ↦ ?_
  split
  · rw [bind_assoc]
    exact .take_bind fun _ ↦ h
  · exact h

theorem identifier_bind {next : Identifier → Parser β}
    (h : ∀ id, Gathers before found' (next id)) : Gathers before found' (identifier >>= next) := by
  rw [identifier, bind_assoc]
  exact .expect_bind fun t ↦ h ⟨t, t.literal⟩

/-- What a failed statement had found is lost, and nothing takes its place.  A sublist may leave
things out, so this does no harm. -/
theorem attempt_bind {read : Parser α} {next : Option α → Parser β} (h : Gathers [] found read)
    (hnext : ∀ o : Option α, Gathers (before ++ o.toList.flatMap found) found' (next o)) :
    Gathers before found' (attempt read >>= next) := by
  have hattempt : Gathers [] (fun o : Option α ↦ o.toList.flatMap found) (attempt read) := by
    intro s
    have hread := h s
    rw [attempt]
    cases hcases : read s with
    | done v t =>
      rw [hcases] at hread
      simpa [Outcome.Post] using hread
    | stop e t =>
      rw [hcases] at hread
      exact hread
    | exhausted => trivial
  exact .after hattempt hnext

end Gathers

/-! ## Every reader

All readers but those for operators start with nothing gathered.  The ones for operators go on from
the literals of their left side. -/

theorem gathers_moreParameters (depth : Nat) :
    Gathers [] (fun _ ↦ []) (moreParameters depth) := by
  induction depth with
  | zero => exact .exhaust
  | succ depth ih =>
    refine .peek_bind fun _ ↦ .ite ?_ ?_
    · exact .take_bind fun _ ↦ .identifier_bind fun _ ↦ ih.bind fun _ ↦ .pure rfl
    · exact .expect_bind fun _ ↦ .pure rfl

theorem gathers_parameters (depth : Nat) : Gathers [] (fun _ ↦ []) (parameters depth) := by
  refine .peek_bind fun _ ↦ .ite ?_ ?_
  · exact .take_bind fun _ ↦ .pure rfl
  · exact .identifier_bind fun _ ↦ (gathers_moreParameters depth).bind fun _ ↦ .pure rfl

mutual

theorem gathers_expression : ∀ depth level,
    Gathers [] (fun e ↦ literals e.nodes) (expression depth level)
  | 0, _ => .exhaust
  | depth + 1, level => (gathers_operand depth).bind fun left ↦ gathers_climb depth level left

/-- What was found in the expression so far lies in front of everything that is still to come. -/
theorem gathers_climb : ∀ depth level (left : Expr),
    Gathers (literals left.nodes) (fun e ↦ literals e.nodes) (climb depth level left)
  | 0, _, _ => .exhaust
  | depth + 1, level, left => by
    refine .peek_bind fun t ↦ .ite ?_ (.pure rfl)
    split
    · exact .pure rfl
    · rename_i way _
      exact .take_bind fun _ ↦ (gathers_continued depth way t left).bind fun longer ↦
        gathers_climb depth level longer

theorem gathers_continued : ∀ depth way (t : Token) (left : Expr),
    Gathers (literals left.nodes) (fun e ↦ literals e.nodes) (continued depth way t left)
  | 0, _, _, _ => .exhaust
  | depth + 1, .operation, t, left => by
    rw [continued]
    split
    · exact .halt
    · refine .after (gathers_expression depth _) fun right ↦ .pure ?_
      rw [Expr.nodes, literals_cons rfl, literals_append]
  | depth + 1, .call, t, left => by
    refine .after (gathers_expressions depth _) fun arguments ↦ .pure ?_
    rw [Expr.nodes, literals_cons rfl, literals_append]
  | depth + 1, .index, t, left => by
    refine .after (gathers_expression depth _) fun position ↦ .expect_bind fun _ ↦ .pure ?_
    rw [Expr.nodes, literals_cons rfl, literals_append]

/-- The token that starts a function literal is kept, and those that start anything else are passed
over. -/
theorem gathers_operand : ∀ depth, Gathers [] (fun e ↦ literals e.nodes) (operand depth)
  | 0 => .exhaust
  | depth + 1 => by
    refine .take_bind_kept fun t ↦ ?_
    split
    · exact .weaken (.pure rfl) (List.nil_sublist _)
    · split
      · exact .weaken (.pure rfl) (List.nil_sublist _)
      · exact .fail _
    · exact .weaken (.pure rfl) (List.nil_sublist _)
    · exact .weaken (.pure rfl) (List.nil_sublist _)
    · exact .weaken (.pure rfl) (List.nil_sublist _)
    · refine .weaken ?_ (List.nil_sublist _)
      split
      · exact .halt
      · refine (gathers_expression depth _).bind fun right ↦ .pure ?_
        rw [Expr.nodes, literals_cons rfl]
    · refine .weaken ?_ (List.nil_sublist _)
      split
      · exact .halt
      · refine (gathers_expression depth _).bind fun right ↦ .pure ?_
        rw [Expr.nodes, literals_cons rfl]
    · refine .weaken ?_ (List.nil_sublist _)
      exact (gathers_expression depth _).bind fun inner ↦ .expect_bind fun _ ↦ .pure rfl
    · exact (gathers_conditional depth t).weaken (List.nil_sublist _)
    · rename_i hkind
      refine .expect_bind fun _ ↦ .after (gathers_parameters depth) fun ids ↦
        .expect_bind fun brace ↦ .after (gathers_block depth brace) fun body ↦ .pure ?_
      rw [literals_function, kept, if_pos hkind]
      rfl
    · refine .weaken ?_ (List.nil_sublist _)
      refine (gathers_expressions depth _).bind fun elements ↦ .pure ?_
      rw [Expr.nodes, literals_cons rfl]
    · refine .weaken ?_ (List.nil_sublist _)
      refine (gathers_pairs depth).bind fun entries ↦ .pure ?_
      rw [Expr.nodes, literals_cons rfl]
    · exact .fail _

theorem gathers_conditional : ∀ depth (t : Token),
    Gathers [] (fun e ↦ literals e.nodes) (conditional depth t)
  | 0, _ => .exhaust
  | depth + 1, t => by
    refine .expect_bind fun _ ↦ (gathers_expression depth _).bind fun condition ↦
      .expect_bind fun _ ↦ .expect_bind fun brace ↦ .after (gathers_block depth brace)
        fun consequence ↦ .peek_bind fun _ ↦ .ite ?_ ?_
    · refine .take_bind fun _ ↦ .expect_bind fun brace ↦ .after (gathers_block depth brace)
        fun alternative ↦ .pure ?_
      rw [Expr.nodes, literals_cons rfl, literals_append, literals_append, List.append_assoc]
    · refine .pure ?_
      rw [Expr.nodes, literals_cons rfl, literals_append]

theorem gathers_expressions : ∀ depth close,
    Gathers [] (fun es ↦ literals (nodesOfExprs es)) (expressions depth close)
  | 0, _ => .exhaust
  | depth + 1, close => by
    refine .peek_bind fun _ ↦ .ite ?_ ?_
    · exact .take_bind fun _ ↦ .pure rfl
    · refine (gathers_expression depth _).bind fun first ↦
        .after (gathers_moreExpressions depth close) fun rest ↦ .pure ?_
      rw [nodesOfExprs, literals_append]

theorem gathers_moreExpressions : ∀ depth close,
    Gathers [] (fun es ↦ literals (nodesOfExprs es)) (moreExpressions depth close)
  | 0, _ => .exhaust
  | depth + 1, close => by
    refine .peek_bind fun _ ↦ .ite ?_ ?_
    · refine .take_bind fun _ ↦ (gathers_expression depth _).bind fun next ↦
        .after (gathers_moreExpressions depth close) fun rest ↦ .pure ?_
      rw [nodesOfExprs, literals_append]
    · exact .expect_bind fun _ ↦ .pure rfl

theorem gathers_pairs : ∀ depth,
    Gathers [] (fun ps ↦ literals (nodesOfPairs ps)) (pairs depth)
  | 0 => .exhaust
  | depth + 1 => by
    -- the pairs after this one are read in the same way with a comma before them and without
    have hrest : ∀ key value : Expr, Gathers (literals key.nodes ++ literals value.nodes)
        (fun ps ↦ literals (nodesOfPairs ps))
        (pairs depth >>= fun rest ↦ Pure.pure ((key, value) :: rest)) := by
      intro key value
      refine .after (gathers_pairs depth) fun rest ↦ .pure ?_
      rw [nodesOfPairs, literals_append, literals_append, List.append_assoc]
    refine .peek_bind fun _ ↦ .ite ?_ ?_
    · exact .take_bind fun _ ↦ .pure rfl
    · refine (gathers_expression depth _).bind fun key ↦ .expect_bind fun _ ↦
        .after (gathers_expression depth _) fun value ↦ .peek_bind fun _ ↦ .ite ?_ ?_
      · exact hrest key value
      · exact .expect_bind fun _ ↦ hrest key value

theorem gathers_statement : ∀ depth, Gathers [] (fun s ↦ literals s.nodes) (statement depth)
  | 0 => .exhaust
  | depth + 1 => by
    refine .peek_bind fun t ↦ ?_
    split
    · refine .take_bind fun _ ↦ .identifier_bind fun id ↦ .expect_bind fun _ ↦
        (gathers_expression depth _).bind fun value ↦ .skipIf_bind (.pure ?_)
      rw [Stmt.nodes, literals_cons rfl]
    · refine .take_bind fun _ ↦ .peek_bind fun _ ↦ .ite ?_ ?_
      · exact .skipIf_bind (.pure rfl)
      · refine (gathers_expression depth _).bind fun value ↦ .skipIf_bind (.pure ?_)
        rw [Stmt.nodes, literals_cons rfl]
    · refine (gathers_expression depth _).bind fun e ↦ .skipIf_bind (.pure ?_)
      rw [Stmt.nodes, literals_cons rfl]

theorem gathers_statements : ∀ depth inBlock,
    Gathers [] (fun ss ↦ literals (nodesOfStmts ss)) (statements depth inBlock)
  | 0, _ => .exhaust
  | depth + 1, inBlock => by
    refine .peek_bind fun _ ↦ .ite (.pure rfl) ?_
    refine .attempt_bind (gathers_statement depth) fun first ↦
      .after (gathers_statements depth inBlock) fun rest ↦ .pure ?_
    cases first with
    | none => rfl
    | some s =>
      simp only [Option.toList_some, List.singleton_append, List.nil_append, List.flatMap_cons,
        List.flatMap_nil, List.append_nil]
      rw [nodesOfStmts, literals_append]

theorem gathers_block : ∀ depth (brace : Token),
    Gathers [] (fun b ↦ literals b.nodes) (block depth brace)
  | 0, _ => .exhaust
  | depth + 1, brace => by
    refine (gathers_statements depth true).bind fun body ↦ .take_bind fun _ ↦
      .ite (.fail _) (.pure ?_)
    rw [Block.nodes]

end

end Parser

/-! ## Whole programs -/

/-- The tokens of the function literals are tokens of the text, in the same order. -/
theorem literals_sublist_pending (text : String) :
    (literals (parse text).program.nodes).Sublist (Cursor.ofText text).stream.pending := by
  have hgathers := Parser.gathers_statements (Cursor.ofText text).stream.depth false
    ⟨(Cursor.ofText text).stream, []⟩
  rw [parse, Stream.parse]
  cases hread : Parser.statements (Cursor.ofText text).stream.depth false
      ⟨(Cursor.ofText text).stream, []⟩ with
  | done statements t =>
    rw [hread] at hgathers
    exact (List.sublist_append_left _ _).trans hgathers
  | stop e t => exact List.nil_sublist _
  | exhausted => exact List.nil_sublist _

/-- Any two tokens of a stream in order are in order. -/
theorem Stream.Increasing.pairwise_pending {s : Stream} (h : s.Increasing) :
    s.pending.Pairwise fun t u ↦ t.position.Before u.position := by
  rw [List.pairwise_iff_getElem]
  intro i j hi hj hij
  rw [← head_skip_of_lt hi, ← head_skip_of_lt hj]
  exact h.before_of_lt hij

/-- **A function literal of a text is known by the place of its token.** This is what makes a place
a name for a literal: in a text, two literals with the same place are one. -/
theorem eq_of_literal_position {text : String} {x y : Node} {t u : Token}
    (hx : x ∈ (parse text).program.nodes) (hy : y ∈ (parse text).program.nodes)
    (ht : x.literal? = some t) (hu : y.literal? = some u) (h : t.position = u.position) :
    x = y := by
  have hpairwise : (parse text).program.nodes.Pairwise fun x y ↦
      ∀ t ∈ x.literal?, ∀ u ∈ y.literal?, t.position ≠ u.position := by
    have hincreasing := (Cursor.ofText text).increasing_stream.1.pairwise_pending
    have hliterals := hincreasing.sublist (literals_sublist_pending text)
    rw [literals, List.pairwise_filterMap] at hliterals
    refine hliterals.imp fun {x y} hxy t ht u hu heq ↦ ?_
    have hbefore := hxy t ht u hu
    rw [heq] at hbefore
    exact Position.before_irrefl _ hbefore
  have hsymm : Std.Symm fun x y : Node ↦
      ∀ t ∈ x.literal?, ∀ u ∈ y.literal?, t.position ≠ u.position :=
    ⟨fun _ _ hxy t ht u hu ↦ (hxy u hu t ht).symm⟩
  by_contra hne
  exact hpairwise.forall hx hy hne t ht u hu h

end MonkeyLang
