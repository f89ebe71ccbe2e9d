import MonkeyLang.Proofs.Parse.Blame

/-!
# The tokens before the first error are the start of something

What a reader has taken when it finds its first error can be completed: with some more tokens it is
a phrase, a statement, a block or whatever the reader was to read.  `Grammar.Begins` says this of
tokens, and `Blames` relates it to the readers, one by one.  So each reader has to name what is
missing at every place where it can fail.

The missing tokens are always the same few: a constant for an operand, the name `x` for a name, an
empty block, and the symbols that are expected.  A statement is completed by a semicolon, because
then it can stand in front of any token.

The result for whole programs is `Parser.blames_statements`.

## Completing from the inside

An error in the middle of a construct leaves several of them open.  The innermost reader completes
what it was to read, and each reader around it completes its own construct with what it would have
read after that: `Begins.wrap`.  A reader that was not reached any more has nothing in the tokens,
and its part is filled in as a whole.

For an expression this is more than appending tokens.  The rest of an expression after `left` can
be completed to a phrase of the tier that was asked for, but only if `left` belongs to a tier at
which it can stand there.  So the hypotheses of the invariant of the loop return here
(`StuckRest`), with a goal about the start of a phrase instead of a phrase.

Any completion is good enough.  It is not the shortest one, nor one that an author would have
meant.
-/

set_option autoImplicit false

namespace MonkeyLang

open Grammar

/-! ## Tokens that are missing -/

namespace Grammar

/-- A symbol where one is missing. -/
def Filler.mark (c : Symbol) : Token := ⟨.symbol c, .start⟩

/-- An operand where one is missing. -/
def Filler.constant : Token := ⟨.keyword .kwTrue, .start⟩

/-- A name where one is missing. -/
def Filler.name : Token := ⟨.ident "x", .start⟩

/-- A block where one is missing.  The shortest block there is. -/
def Filler.block : List Token := [mark .leftBrace, mark .rightBrace]

theorem Filler.kind_mark (c : Symbol) : (mark c).kind = .symbol c := rfl

theorem Filler.kind_name : name.kind = .ident "x" := rfl

/-- The tokens that stand in for what is missing.  All of them can be written down and are never
defective, so that they can be put behind the tokens of a text. -/
def isFiller (t : Token) : Bool :=
  match t.kind with
  | .symbol _ | .keyword _ => true
  | .ident name => name == "x"
  | _ => false

/-- A text can hold the tokens that are missing. -/
theorem wellFormed_of_isFiller {t : Token} (h : isFiller t = true) : t.kind.WellFormed := by
  rw [isFiller.eq_def] at h
  split at h
  · rename_i hkind
    rw [hkind]
    trivial
  · rename_i hkind
    rw [hkind]
    trivial
  · rename_i name hkind
    obtain rfl : name = "x" := by simpa using h
    rw [hkind]
    refine ⟨by decide, fun c hc ↦ ?_, by decide⟩
    obtain rfl : c = 'x' := by simpa using hc
    decide
  · exact absurd h (by simp)

/-- The tokens `xs` are the first ones of something in `P`.  Nothing is said about what the rest
is, only that it is made of fillers.  So there is one completion of the tokens, and it is one that
can be written down. -/
def Begins (P : List Token → Prop) (xs : List Token) : Prop :=
  ∃ ys, ys.all isFiller = true ∧ P (xs ++ ys)

namespace Begins

variable {P Q : List Token → Prop} {xs : List Token}

/-- What is around a construct completes it to a larger one. -/
theorem wrap (h : Begins P xs) (front back : List Token) (hback : back.all isFiller = true)
    (hQ : ∀ zs, P zs → Q (front ++ (zs ++ back))) :
    Begins Q (front ++ xs) := by
  obtain ⟨ys, hys, hP⟩ := h
  refine ⟨ys ++ back, by rw [List.all_append, hys, hback]; rfl, ?_⟩
  have hwhole := hQ _ hP
  rwa [List.append_assoc, ← List.append_assoc front] at hwhole

/-- Tokens in front of a part of a construct stay in front. -/
theorem after (h : Begins P xs) (front : List Token) (hQ : ∀ zs, P zs → Q (front ++ zs)) :
    Begins Q (front ++ xs) :=
  h.wrap front [] rfl fun zs hzs ↦ by rw [List.append_nil]; exact hQ zs hzs

theorem imp (h : Begins P xs) (hQ : ∀ zs, P zs → Q zs) : Begins Q xs := h.after [] hQ

end Begins

/-- Tokens in `P` with a closing bracket after them.  The bracket is part of what is described
because the readers of lists take it. -/
def ClosedBy (c : Symbol) (P : List Token → Prop) (zs : List Token) : Prop :=
  ∃ ys close, zs = ys ++ [close] ∧ close.kind = .symbol c ∧ P ys

theorem ClosedBy.of_mark {c : Symbol} {P : List Token → Prop} (ys : List Token) (h : P ys) :
    ClosedBy c P (ys ++ [Filler.mark c]) := ⟨ys, _, rfl, rfl, h⟩

theorem ClosedBy.after {c : Symbol} {P Q : List Token → Prop} {zs : List Token}
    (h : ClosedBy c P zs) (front : List Token) (hQ : ∀ ys, P ys → Q (front ++ ys)) :
    ClosedBy c Q (front ++ zs) := by
  obtain ⟨ys, close, rfl, hclose, hP⟩ := h
  exact ⟨front ++ ys, close, by simp, hclose, hQ ys hP⟩

/-- Expressions of a tier, whatever they are. -/
def IsPhrase (tier : Tier) (zs : List Token) : Prop := ∃ e, Phrase tier zs e

/-- Expressions that are as loose as a token binds. -/
def IsPhraseAt (t : Token) (zs : List Token) : Prop :=
  ∃ tier : Tier, tier.rank = (Precedence.ofKind t.kind).rank ∧ IsPhrase tier zs

/-- Pairs of a hash, whatever they are. -/
def IsPaired (zs : List Token) : Prop := ∃ pairs, Paired zs pairs

/-- Statements that can stand in front of any token.  A statement with its semicolon is one, and a
statement that needs to be completed is completed with a semicolon. -/
def IsSentence (zs : List Token) : Prop := ∃ s, ∀ next, Sentence zs next s

/-- A missing operand can be a constant. -/
theorem phrase_filler (tier : Tier) :
    Phrase tier [Filler.constant] (.bool Filler.constant true) :=
  (Phrase.boolTrue rfl).loosen (by cases tier <;> decide)

/-- A missing block can be empty. -/
theorem enclosed_filler : Enclosed Filler.block ⟨Filler.mark .leftBrace, []⟩ := by
  have h := Enclosed.mk (Filler.kind_mark .leftBrace) .none (Filler.kind_mark .rightBrace)
  exact h

/-- A statement in front of some token can also stand at an end. -/
theorem Sentence.before_end {xs : List Token} {next : Token} {s : Stmt} (h : Sentence xs next s)
    {close : Token} (hclose : close.kind = .eof ∨ close.kind = .symbol .rightBrace) :
    Sentence xs close s := by
  have hcont : ¬ Continues close.kind := by
    rw [continues_iff]
    rcases hclose with hkind | hkind <;> rw [hkind] <;> decide
  have hclosing : ∀ {ys}, Closing ys next → Closing ys close :=
    fun h ↦ h.imp_right fun hys ↦ ⟨hys.1, hcont⟩
  cases h with
  | letStmt ht hid hassign value hend => exact .letStmt ht hid hassign value (hclosing hend)
  | returnValue ht value hend => exact .returnValue ht value (hclosing hend)
  | returnNothing ht hys hend =>
    refine .returnNothing ht hys ?_
    obtain rfl | ⟨semicolon, rfl, -⟩ := hys
    · exact .inr hclose.symm
    · exact hend
  | expression value hend => exact .expression value (hclosing hend)

/-- The same for a sequence, where only the last statement sees the token behind it. -/
theorem Sentences.before_end {xs : List Token} {next : Token} {ss : List Stmt}
    (h : Sentences xs next ss) {close : Token}
    (hclose : close.kind = .eof ∨ close.kind = .symbol .rightBrace) : Sentences xs close ss := by
  induction ss generalizing xs with
  | nil =>
    cases h
    exact .none
  | cons s ss ih =>
    cases h with
    | cons first rest =>
      refine .cons ?_ (ih rest)
      rename_i ys
      cases ys with
      | nil => exact first.before_end hclose
      | cons y ys => exact first

end Grammar

namespace Parser

/-! ## Every reader -/

/-- The error is at the token `c`, and the tokens before it are the first ones of something in `P`.
Everything that was taken is consistent with some construct, and the token that the error is about
is the first one that is not. -/
def Stuck (P : List Token → Prop) (xs : List Token) (c : Token) (e : ParseError) : Prop :=
  e.position = c.position ∧ Begins P xs

/-- A list of names goes on after a name, which is not among the tokens of this reader.  The
completion is therefore one of the name and the tokens together. -/
theorem blames_moreParameters (depth : Nat) :
    Blames (fun xs c e ↦ e.position = c.position ∧ ∀ (t : Token) name, t.kind = .ident name →
      Begins (ClosedBy .rightParen fun ys ↦ ∃ ids, Names (t :: ys) ids) xs)
      (moreParameters depth) := by
  induction depth with
  | zero => exact .exhaust
  | succ depth ih =>
    rw [moreParameters]
    refine .peek_bind fun t ↦ .ite (fun hcomma ↦ ?_) fun _ ↦ ?_
    · refine .take_bind fun comma ↦ .identifier_bind (fun c e hpos hpeek ↦ ?_) fun u name hu ↦ ?_
      · obtain rfl : comma = t := hpeek
        refine ⟨hpos, fun t name ht ↦ ⟨[Filler.name, Filler.mark .rightParen], rfl, ?_⟩⟩
        exact .of_mark [comma, Filler.name] ⟨_, .cons ht hcomma (.one rfl)⟩
      · refine Blames.bind (ih.imp ?_) (reads_moreParameters depth) fun ids xs ↦ .pure _
        rintro xs c e ⟨hpos, hbegins⟩ hpeek
        obtain rfl : comma = t := hpeek
        refine ⟨hpos, fun t name' ht ↦ (hbegins u name hu).after [comma, u] fun zs hzs ↦ ?_⟩
        refine hzs.after [comma, u] ?_
        rintro ys ⟨ids, hnames⟩
        exact ⟨_, .cons ht hcomma hnames⟩
    · refine .expect_bind (fun c _ _ ↦ ⟨rfl, fun t name ht ↦ ?_⟩) fun _ _ ↦ .pure _
      exact ⟨[Filler.mark .rightParen], rfl, .of_mark [] ⟨_, .one ht⟩⟩

theorem blames_parameters (depth : Nat) :
    Blames (Stuck (ClosedBy .rightParen fun ys ↦ ∃ ids, Parameters ys ids))
      (parameters depth) := by
  rw [parameters]
  refine .peek_bind fun t ↦ .ite (fun _ ↦ .take_bind fun _ ↦ .pure _) fun _ ↦ ?_
  refine .identifier_bind (fun c e hpos _ ↦ ⟨hpos, ?_⟩) fun u name hu ↦ ?_
  · exact ⟨[Filler.mark .rightParen], rfl, .of_mark [] ⟨_, .none⟩⟩
  · refine Blames.bind ((blames_moreParameters depth).imp ?_) (reads_moreParameters depth)
      fun ids xs ↦ .pure _
    rintro xs c e ⟨hpos, hbegins⟩ -
    refine ⟨hpos, (hbegins u name hu).after [u] fun zs hzs ↦ hzs.after [u] ?_⟩
    rintro ys ⟨ids, hnames⟩
    exact ⟨_, .some hnames⟩

/-- The first error of the rest of an expression that starts with `left`.  Here `left` was read
before the tokens, and a completion is one of the tokens of `left` followed by these. -/
def StuckRest (level : Precedence) (left : Expr) (xs : List Token) (c : Token) (e : ParseError) :
    Prop :=
  e.position = c.position ∧ ∀ (tier : Tier) ys, Phrase tier ys left →
    (Tier.above level).rank ≤ tier.rank →
      (Precedence.ofKind (following xs c).kind).rank ≤ tier.rank →
        Begins (IsPhrase (.above level)) (ys ++ xs)

/-- The first error of a continuation of `left` by the token `t`. -/
def StuckContinuation (t : Token) (left : Expr) (xs : List Token) (c : Token) (e : ParseError) :
    Prop :=
  e.position = c.position ∧ ∀ (tier : Tier) ys, Phrase tier ys left →
    (Precedence.ofKind t.kind).rank ≤ tier.rank →
      Begins (IsPhraseAt t) (ys ++ t :: xs)

/-- The error of a token that starts no expression is at that token. -/
theorem position_noOperand (t : Token) : (noOperand t).position = t.position := by
  rw [noOperand]
  split <;> rfl

mutual

theorem blames_expression : ∀ depth level,
    Blames (Stuck (IsPhrase (.above level))) (expression depth level)
  | 0, _ => .exhaust
  | depth + 1, level => by
    have hunary : (Tier.above level).rank ≤ Tier.unary.rank := by cases level <;> decide
    rw [expression]
    refine Blames.bind ((blames_operand depth).imp ?_) (reads_operand depth) fun left xs ↦
      (blames_climb depth level left).imp ?_
    · rintro xs c e ⟨hpos, hbegins⟩
      refine ⟨hpos, hbegins.imp ?_⟩
      rintro zs ⟨a, ha⟩
      exact ⟨a, ha.loosen hunary⟩
    · rintro ys c e ⟨hpos, hbegins⟩ ⟨tier, htier, hnext, hleft⟩
      exact ⟨hpos, hbegins tier xs hleft (hunary.trans htier) hnext⟩

/-- What the reader takes next is one continuation of `left`, and the rest of the expression that
this gives. -/
theorem blames_climb : ∀ depth level left,
    Blames (StuckRest level left) (climb depth level left)
  | 0, _, _ => .exhaust
  | depth + 1, level, left => by
    rw [climb]
    refine .peek_bind fun t ↦ .ite (fun hlevel ↦ ?_) fun _ ↦ .pure left
    split
    · exact .pure left
    · rename_i way hway
      refine .take_bind fun x ↦ Blames.bind ((blames_continued depth way t left hway).imp ?_)
        (reads_continued depth way t left hway) fun longer xs ↦
          (blames_climb depth level longer).imp ?_
      · rintro xs c e ⟨hpos, hbegins⟩ hpeek
        obtain rfl : x = t := hpeek
        refine ⟨hpos, fun tier ys hleft _ hnext ↦ (hbegins tier ys hleft hnext).imp ?_⟩
        rintro zs ⟨tier', hrank, a, ha⟩
        exact ⟨a, ha.loosen (Tier.rank_above_le (by rw [hrank]; exact hlevel))⟩
      · rintro zs c e ⟨hpos, hbegins⟩ hcontinued hpeek
        obtain rfl : x = t := hpeek
        refine ⟨hpos, fun tier ys hleft _ hnext ↦ ?_⟩
        obtain ⟨tier', hrank, hnext', hlonger⟩ := hcontinued tier ys hleft hnext
        have habove : (Tier.above level).rank ≤ tier'.rank :=
          Tier.rank_above_le (by rw [hrank]; exact hlevel)
        have h := hbegins tier' _ hlonger habove hnext'
        rwa [List.append_assoc, List.cons_append] at h

theorem blames_continued : ∀ depth way (t : Token) left, continuation? t.kind = some way →
    Blames (StuckContinuation t left) (continued depth way t left)
  | 0, _, _, _, _ => .exhaust
  | depth + 1, .operation, t, left, hway => by
    obtain ⟨tier', op, hop, hkind, hofKind, hrank, habove⟩ := operator_of_operation hway
    rw [continued, hofKind]
    refine Blames.bind ((blames_expression depth _).imp ?_) (reads_expression depth _)
      fun right xs ↦ .pure _
    rintro xs c e ⟨hpos, hbegins⟩
    refine ⟨hpos, fun tier ys hleft htier ↦ ?_⟩
    have h := hbegins.after (ys ++ [t]) (Q := IsPhraseAt t) ?_
    · rwa [List.append_assoc] at h
    · rintro zs ⟨b, hb⟩
      rw [habove] at hb
      rw [List.append_assoc]
      -- the right operand belongs to the tier above the operator
      exact ⟨tier', hrank, _, .operation hop hkind (hleft.loosen (hrank ▸ htier)) hb⟩
  | depth + 1, .call, t, left, hway => by
    have ht : t.kind = .symbol .leftParen := kind_of_call hway
    rw [continued]
    refine Blames.bind ((blames_expressions depth .rightParen).imp ?_) (reads_expressions depth _)
      fun arguments xs ↦ .pure _
    rintro xs c e ⟨hpos, hbegins⟩
    refine ⟨hpos, fun tier ys hleft htier ↦ ?_⟩
    rw [ht] at htier
    have h := hbegins.after (ys ++ [t]) (Q := IsPhraseAt t) ?_
    · rwa [List.append_assoc] at h
    · rintro zs ⟨ws, close, rfl, hclose, es, hlist⟩
      rw [List.append_assoc]
      exact ⟨.application, by rw [ht]; rfl, _, .call (hleft.loosen htier) ht hlist hclose⟩
  | depth + 1, .index, t, left, hway => by
    have ht : t.kind = .symbol .leftBracket := kind_of_index hway
    rw [continued]
    refine Blames.bind ((blames_expression depth _).imp ?_) (reads_expression depth _)
      fun position xs ↦ .expect_bind (fun c _ ↦ ?_) fun _ _ ↦ .pure _
    · rintro xs c e ⟨hpos, hbegins⟩
      refine ⟨hpos, fun tier ys hleft htier ↦ ?_⟩
      rw [ht] at htier
      have h := hbegins.wrap (ys ++ [t]) [Filler.mark .rightBracket] rfl
        (Q := IsPhraseAt t) ?_
      · rwa [List.append_assoc] at h
      · rintro zs ⟨i, hi⟩
        rw [List.append_assoc]
        exact ⟨.application, by rw [ht]; rfl, _, .index (hleft.loosen htier) ht hi rfl⟩
    · rintro ⟨hposition, -⟩
      refine ⟨rfl, fun tier ys hleft htier ↦ ?_⟩
      rw [ht] at htier
      have h := Phrase.index (hleft.loosen htier) ht hposition (Filler.kind_mark .rightBracket)
      exact ⟨[Filler.mark .rightBracket], rfl, .application, by rw [ht]; rfl, _,
        by simpa using h⟩

/-- An operand is stuck at its first token, where nothing needs to be completed but the operand, or
within a construct that started with that token. -/
theorem blames_operand : ∀ depth, Blames (Stuck (IsPhrase .unary)) (operand depth)
  | 0 => .exhaust
  | depth + 1 => by
    have hatom : Tier.unary.rank ≤ Tier.atom.rank := by decide
    have hnone : Begins (IsPhrase .unary) [] :=
      ⟨[Filler.constant], rfl, _, phrase_filler .unary⟩
    rw [operand]
    refine .take_or_fail fun t ↦ ?_
    split
    · exact .inr (.pure _)
    · split
      · exact .inr (.pure _)
      -- a number that is too large is the first token that can be wrong
      · exact .inl ⟨_, rfl, rfl, hnone⟩
    · exact .inr (.pure _)
    · exact .inr (.pure _)
    · exact .inr (.pure _)
    · rename_i hkind
      rw [hkind]
      refine .inr (Blames.bind ((blames_expression depth _).imp ?_) (reads_expression depth _)
        fun right xs ↦ .pure _)
      rintro xs c e ⟨hpos, hbegins⟩
      refine ⟨hpos, hbegins.after [t] ?_⟩
      rintro zs ⟨a, ha⟩
      exact ⟨_, .sign (.inl rfl) hkind ha⟩
    · rename_i hkind
      rw [hkind]
      refine .inr (Blames.bind ((blames_expression depth _).imp ?_) (reads_expression depth _)
        fun right xs ↦ .pure _)
      rintro xs c e ⟨hpos, hbegins⟩
      refine ⟨hpos, hbegins.after [t] ?_⟩
      rintro zs ⟨a, ha⟩
      exact ⟨_, .sign (.inr rfl) hkind ha⟩
    · rename_i hkind
      refine .inr (Blames.bind ((blames_expression depth _).imp ?_) (reads_expression depth _)
        fun inner xs ↦ .expect_bind (fun c _ ↦ ?_) fun _ _ ↦ .pure _)
      · rintro xs c e ⟨hpos, hbegins⟩
        refine ⟨hpos, hbegins.wrap [t] [Filler.mark .rightParen] rfl ?_⟩
        rintro zs ⟨a, ha⟩
        exact ⟨a, (Phrase.group hkind ha rfl).loosen hatom⟩
      · rintro ⟨hinner, -⟩
        refine ⟨rfl, [Filler.mark .rightParen], rfl, inner, ?_⟩
        rw [List.append_nil]
        exact (Phrase.group hkind hinner rfl).loosen hatom
    · rename_i hkind
      refine .inr ((blames_conditional depth t hkind).imp ?_)
      rintro xs c e ⟨hpos, hbegins⟩
      refine ⟨hpos, hbegins.imp ?_⟩
      rintro zs ⟨a, ha⟩
      exact ⟨a, ha.loosen hatom⟩
    · rename_i hkind
      refine .inr (.expect_bind (fun c _ ↦ ?_) fun left hleft ↦
        Blames.bind ((blames_parameters depth).imp ?_) (reads_parameters depth) fun ids xs ↦
          .expect_bind (fun c _ ↦ ?_) fun brace hbrace ↦ ?_)
      · refine ⟨rfl, Filler.mark .leftParen :: Filler.mark .rightParen :: Filler.block, rfl, ?_⟩
        exact ⟨_, (Phrase.function hkind (Filler.kind_mark .leftParen) .none
          (Filler.kind_mark .rightParen) enclosed_filler).loosen hatom⟩
      · rintro xs c e ⟨hpos, hbegins⟩
        refine ⟨hpos, hbegins.wrap [t, left] Filler.block rfl ?_⟩
        rintro zs ⟨ys, right, rfl, hright, ids, hids⟩
        have h := Phrase.function hkind (Token.kind_of_type_symbol hleft) hids hright
          enclosed_filler
        exact ⟨_, by simpa using h.loosen hatom⟩
      · rintro ⟨ys, right, rfl, hright, hids⟩
        have h := Phrase.function hkind (Token.kind_of_type_symbol hleft) hids hright
          enclosed_filler
        exact ⟨rfl, Filler.block, rfl, _,
          by simpa using h.loosen hatom⟩
      · have hbrace := Token.kind_of_type_symbol hbrace
        refine Blames.bind ((blames_block depth brace hbrace).imp ?_)
          (reads_block depth brace hbrace) fun body ys ↦ .pure _
        rintro ys c e ⟨hpos, hbegins⟩ ⟨zs, right, rfl, hright, hids⟩
        have h := hbegins.after (t :: left :: (zs ++ [right])) (Q := IsPhrase .unary) ?_
        · exact ⟨hpos, by simpa using h⟩
        · rintro ws ⟨b, hb⟩
          have h := Phrase.function hkind (Token.kind_of_type_symbol hleft) hids hright hb
          exact ⟨_, by simpa using h.loosen hatom⟩
    · rename_i hkind
      refine .inr (Blames.bind ((blames_expressions depth .rightBracket).imp ?_)
        (reads_expressions depth _) fun elements xs ↦ .pure _)
      rintro xs c e ⟨hpos, hbegins⟩
      refine ⟨hpos, hbegins.after [t] ?_⟩
      rintro zs ⟨ys, close, rfl, hclose, es, hlist⟩
      exact ⟨_, (Phrase.array hkind hlist hclose).loosen hatom⟩
    · rename_i hkind
      refine .inr (Blames.bind ((blames_pairs depth).imp ?_) (reads_pairs depth)
        fun entries xs ↦ .pure _)
      rintro xs c e ⟨⟨hpos, hbegins⟩, -⟩
      refine ⟨hpos, hbegins.after [t] ?_⟩
      rintro zs ⟨ys, close, rfl, hclose, ps, hlist⟩
      exact ⟨_, (Phrase.hash hkind hlist hclose).loosen hatom⟩
    · exact .inl ⟨_, rfl, position_noOperand t, hnone⟩

/-- Whatever comes next when the reader is stuck, the completion supplies it together with
everything behind it: the condition, its parentheses and an empty block.  After an `else` a block
is supplied, but no `else` where there is none. -/
theorem blames_conditional : ∀ depth (t : Token), t.kind = .keyword .kwIf →
    Blames (fun xs ↦ Stuck (IsPhrase .atom) (t :: xs)) (conditional depth t)
  | 0, _, _ => .exhaust
  | depth + 1, t, ht => by
    rw [conditional]
    refine .expect_bind (fun x _ ↦ ?_) fun left hleft ↦
      Blames.bind ((blames_expression depth _).imp ?_) (reads_expression depth _)
        fun condition xs ↦ .expect_bind (fun x _ ↦ ?_) fun right hright ↦
          .expect_bind (fun x _ ↦ ?_) fun brace hbrace ↦ ?_
    · refine ⟨rfl, Filler.mark .leftParen :: ([Filler.constant] ++ Filler.mark .rightParen ::
        Filler.block), rfl, ?_⟩
      exact ⟨_, .cond ht (Filler.kind_mark .leftParen) (phrase_filler _)
        (Filler.kind_mark .rightParen) enclosed_filler⟩
    · rintro xs x e ⟨hpos, hbegins⟩
      refine ⟨hpos, hbegins.wrap [t, left] (Filler.mark .rightParen :: Filler.block) rfl ?_⟩
      rintro zs ⟨a, ha⟩
      exact ⟨_, .cond ht (Token.kind_of_type_symbol hleft) ha rfl enclosed_filler⟩
    · rintro ⟨hcondition, -⟩
      have h := Phrase.cond ht (Token.kind_of_type_symbol hleft) hcondition
        (Filler.kind_mark .rightParen) enclosed_filler
      exact ⟨rfl, Filler.mark .rightParen :: Filler.block, rfl, _, by simpa using h⟩
    · rintro ⟨hcondition, -⟩
      have h := Phrase.cond ht (Token.kind_of_type_symbol hleft) hcondition
        (Token.kind_of_type_symbol hright) enclosed_filler
      exact ⟨rfl, Filler.block, rfl, _,
        by simpa using h⟩
    · have hbrace := Token.kind_of_type_symbol hbrace
      refine Blames.bind ((blames_block depth brace hbrace).imp ?_)
        (reads_block depth brace hbrace) fun consequence ys ↦ .peek_bind fun next ↦
          .ite (fun helse ↦ .take_bind fun kwElse ↦
            .expect_bind (fun x _ ↦ ?_) fun brace' hbrace' ↦ ?_) fun _ ↦ .pure _
      · rintro ys x e ⟨hpos, hbegins⟩ ⟨hcondition, -⟩
        have h := hbegins.after (t :: left :: (xs ++ [right])) (Q := IsPhrase .atom) ?_
        · exact ⟨hpos, by simpa using h⟩
        · rintro zs ⟨b, hb⟩
          have h := Phrase.cond ht (Token.kind_of_type_symbol hleft) hcondition
            (Token.kind_of_type_symbol hright) hb
          exact ⟨_, by simpa using h⟩
      -- after the `else` a brace is missing
      · rintro hpeek hconsequence ⟨hcondition, -⟩
        obtain rfl : kwElse = next := hpeek
        have h := Phrase.condElse ht (Token.kind_of_type_symbol hleft) hcondition
          (Token.kind_of_type_symbol hright) hconsequence helse enclosed_filler
        exact ⟨rfl, Filler.block, rfl, _,
          by simpa using h⟩
      · have hbrace' := Token.kind_of_type_symbol hbrace'
        refine Blames.bind ((blames_block depth brace' hbrace').imp ?_)
          (reads_block depth brace' hbrace') fun alternative zs ↦ .pure _
        rintro zs x e ⟨hpos, hbegins⟩ hpeek hconsequence ⟨hcondition, -⟩
        obtain rfl : kwElse = next := hpeek
        have h := hbegins.after (t :: left :: (xs ++ right :: (brace :: ys ++ [kwElse])))
          (Q := IsPhrase .atom) ?_
        · exact ⟨hpos, by simpa using h⟩
        · rintro ws ⟨d, hd⟩
          have h := Phrase.condElse ht (Token.kind_of_type_symbol hleft) hcondition
            (Token.kind_of_type_symbol hright) hconsequence helse hd
          exact ⟨_, by simpa using h⟩

theorem blames_expressions : ∀ depth c,
    Blames (Stuck (ClosedBy c fun ys ↦ ∃ es, Listed ys es)) (expressions depth (.symbol c))
  | 0, _ => .exhaust
  | depth + 1, c => by
    rw [expressions]
    refine .peek_bind fun t ↦ .ite (fun _ ↦ .take_bind fun _ ↦ .pure _) fun _ ↦ ?_
    refine Blames.bind ((blames_expression depth _).imp ?_) (reads_expression depth _)
      fun first xs ↦ Blames.bind ((blames_moreExpressions depth c).imp ?_)
        (reads_moreExpressions depth _) fun rest ys ↦ .pure _
    · rintro xs x e ⟨hpos, hbegins⟩ -
      refine ⟨hpos, hbegins.wrap [] [Filler.mark c] rfl ?_⟩
      rintro zs ⟨a, ha⟩
      exact .of_mark _ ⟨_, .some (.one ha)⟩
    · rintro ys x e ⟨hpos, hbegins⟩ ⟨hfirst, -⟩ -
      refine ⟨hpos, (hbegins xs first hfirst).after xs fun zs hzs ↦ hzs.after xs ?_⟩
      rintro ws ⟨es, hitems⟩
      exact ⟨es, .some hitems⟩

theorem blames_moreExpressions : ∀ depth c,
    Blames (fun xs x e ↦ e.position = x.position ∧ ∀ zs a, Phrase .equality zs a →
      Begins (ClosedBy c fun ys ↦ ∃ es, Items (zs ++ ys) es) xs)
      (moreExpressions depth (.symbol c))
  | 0, _ => .exhaust
  | depth + 1, c => by
    rw [moreExpressions]
    refine .peek_bind fun t ↦ .ite (fun hcomma ↦ ?_) fun _ ↦ ?_
    · refine .take_bind fun comma ↦ Blames.bind ((blames_expression depth _).imp ?_)
        (reads_expression depth _) fun next xs ↦
          Blames.bind ((blames_moreExpressions depth c).imp ?_) (reads_moreExpressions depth _)
            fun rest ys ↦ .pure _
      · rintro xs x e ⟨hpos, hbegins⟩ hpeek
        obtain rfl : comma = t := hpeek
        refine ⟨hpos, fun zs a ha ↦ hbegins.wrap [comma] [Filler.mark c] rfl ?_⟩
        rintro ws ⟨b, hb⟩
        exact .of_mark (comma :: ws) ⟨_, .cons ha hcomma (.one hb)⟩
      · rintro ys x e ⟨hpos, hbegins⟩ ⟨hnext, -⟩ hpeek
        obtain rfl : comma = t := hpeek
        refine ⟨hpos, fun zs a ha ↦ ?_⟩
        refine (hbegins xs next hnext).after (comma :: xs) fun vs hvs ↦ hvs.after (comma :: xs) ?_
        rintro ws ⟨es, hitems⟩
        exact ⟨_, .cons ha hcomma hitems⟩
    · refine .expect_bind (fun x _ _ ↦ ⟨rfl, fun zs a ha ↦ ?_⟩) fun _ _ ↦ .pure _
      refine ⟨[Filler.mark c], rfl, .of_mark [] ⟨[a], ?_⟩⟩
      rw [List.append_nil]
      exact .one ha

/-- In front of a closing brace the pairs of a hash come to their end. -/
theorem blames_pairs : ∀ depth,
    Blames (fun xs c e ↦ Stuck (ClosedBy .rightBrace IsPaired) xs c e ∧
      (following xs c).kind ≠ .symbol .rightBrace) (pairs depth)
  | 0 => .exhaust
  | depth + 1 => by
    rw [pairs]
    refine .peek_bind fun t ↦ .ite (fun _ ↦ .take_bind fun _ ↦ .pure _) fun ht ↦ ?_
    refine Blames.bind ((blames_expression depth _).imp ?_) (reads_expression depth _)
      fun key xs ↦ .expect_bind (fun x _ ↦ ?_) fun colon hcolon ↦
        Blames.bind ((blames_expression depth _).imp ?_) (reads_expression depth _)
          fun value ys ↦ .peek_bind fun next ↦ .ite (fun hnext ↦ ?_) fun _ ↦
            .expect_bind (fun x _ ↦ ?_) fun comma hcomma ↦ ?_
    · rintro xs x e ⟨hpos, hbegins⟩ hfirst
      refine ⟨⟨hpos, hbegins.wrap [] [Filler.mark .colon,
        Filler.constant, Filler.mark .rightBrace] rfl ?_⟩, hfirst ▸ ht⟩
      rintro zs ⟨k, hk⟩
      have h : ClosedBy .rightBrace IsPaired _ := .of_mark _
        ⟨_, .one hk (Filler.kind_mark .colon) (phrase_filler _)⟩
      simpa using h
    · rintro ⟨hkey, -⟩ hfirst
      refine ⟨⟨rfl, [Filler.mark .colon, Filler.constant,
        Filler.mark .rightBrace], rfl, ?_⟩, hfirst ▸ ht⟩
      have h : ClosedBy .rightBrace IsPaired _ := .of_mark _
        ⟨_, .one hkey (Filler.kind_mark .colon) (phrase_filler _)⟩
      simpa using h
    · rintro ys x e ⟨hpos, hbegins⟩ ⟨hkey, -⟩ hfirst
      have h := hbegins.wrap (xs ++ [colon]) [Filler.mark .rightBrace] rfl
        (Q := ClosedBy .rightBrace IsPaired) ?_
      · exact ⟨⟨hpos, by simpa using h⟩, hfirst ▸ ht⟩
      · rintro zs ⟨v, hv⟩
        have h : ClosedBy .rightBrace IsPaired _ :=
          .of_mark _ ⟨_, .one hkey (Token.kind_of_type_symbol hcolon) hv⟩
        simpa using h
    · -- nothing can go wrong in front of the closing brace
      refine Blames.bind ((blames_pairs depth).imp ?_) (reads_pairs depth) fun rest zs ↦ .pure _
      rintro zs x e ⟨-, hne⟩ hpeek
      exact absurd (hpeek ▸ hnext) hne
    · rintro - ⟨hvalue, -⟩ ⟨hkey, -⟩ hfirst
      refine ⟨⟨rfl, [Filler.mark .rightBrace], rfl, ?_⟩, hfirst ▸ ht⟩
      have h : ClosedBy .rightBrace IsPaired _ :=
        .of_mark _ ⟨_, .one hkey (Token.kind_of_type_symbol hcolon) hvalue⟩
      simpa using h
    · refine Blames.bind ((blames_pairs depth).imp ?_) (reads_pairs depth) fun rest zs ↦ .pure _
      rintro zs x e ⟨⟨hpos, hbegins⟩, -⟩ - ⟨hvalue, -⟩ ⟨hkey, -⟩ hfirst
      have h := hbegins.after (xs ++ colon :: (ys ++ [comma]))
        (Q := ClosedBy .rightBrace IsPaired) ?_
      · exact ⟨⟨hpos, by simpa using h⟩, hfirst ▸ ht⟩
      · intro vs hvs
        refine hvs.after (xs ++ colon :: (ys ++ [comma])) ?_
        rintro ws ⟨ps, hps⟩
        have h := Paired.cons hkey (Token.kind_of_type_symbol hcolon) hvalue
          (Token.kind_of_type_symbol hcomma) hps
        exact ⟨_, by simpa using h⟩

theorem blames_statement : ∀ depth, Blames (Stuck IsSentence) (statement depth)
  | 0 => .exhaust
  | depth + 1 => by
    have hclosing : ∀ next, Closing [Filler.mark .semicolon] next :=
      fun next ↦ .inl ⟨_, rfl, rfl⟩
    rw [statement]
    refine .peek_bind fun t ↦ ?_
    split
    · rename_i hkind
      refine .take_bind fun x ↦ .identifier_bind (fun c e hpos hpeek ↦ ?_) fun id name hid ↦
        .expect_bind (fun c _ hpeek ↦ ?_) fun assign hassign ↦
          Blames.bind ((blames_expression depth _).imp ?_) (reads_expression depth _)
            fun value xs ↦ Blames.bind (.skipIf _) (Reads.skipIf _) fun _ ys ↦ .pure _
      · obtain rfl : x = t := hpeek
        refine ⟨hpos, [Filler.name, Filler.mark .assign, Filler.constant,
          Filler.mark .semicolon], rfl, ?_⟩
        exact ⟨_, fun next ↦ .letStmt hkind Filler.kind_name
          (Filler.kind_mark .assign) (phrase_filler _) (hclosing next)⟩
      · obtain rfl : x = t := hpeek
        refine ⟨rfl, [Filler.mark .assign, Filler.constant,
          Filler.mark .semicolon], rfl, ?_⟩
        exact ⟨_, fun next ↦ .letStmt hkind hid (Filler.kind_mark .assign)
          (phrase_filler _) (hclosing next)⟩
      · rintro xs c e ⟨hpos, hbegins⟩ hpeek
        -- the token that was looked at is the one that was taken
        obtain rfl : x = t := hpeek
        refine ⟨hpos, hbegins.wrap [x, id, assign] [Filler.mark .semicolon] rfl ?_⟩
        rintro zs ⟨a, ha⟩
        have h := fun next ↦
          Sentence.letStmt hkind hid (Token.kind_of_type_symbol hassign) ha (hclosing next)
        exact ⟨_, h⟩
    · rename_i hkind
      refine .take_bind fun x ↦ .peek_bind fun next ↦ .ite (fun _ ↦ ?_) fun _ ↦ ?_
      · exact Blames.bind (.skipIf _) (Reads.skipIf _) fun _ ys ↦ .pure _
      · refine Blames.bind ((blames_expression depth _).imp ?_) (reads_expression depth _)
          fun value xs ↦ Blames.bind (.skipIf _) (Reads.skipIf _) fun _ ys ↦ .pure _
        rintro xs c e ⟨hpos, hbegins⟩ - hpeek
        obtain rfl : x = t := hpeek
        refine ⟨hpos, hbegins.wrap [x] [Filler.mark .semicolon] rfl ?_⟩
        rintro zs ⟨a, ha⟩
        have h := fun next ↦ Sentence.returnValue hkind ha (hclosing next)
        exact ⟨_, h⟩
    · refine Blames.bind ((blames_expression depth _).imp ?_) (reads_expression depth _)
        fun value xs ↦ Blames.bind (.skipIf _) (Reads.skipIf _) fun _ ys ↦ .pure _
      rintro xs c e ⟨hpos, hbegins⟩ -
      refine ⟨hpos, hbegins.wrap [] [Filler.mark .semicolon] rfl ?_⟩
      rintro zs ⟨a, ha⟩
      have h := fun next ↦ Sentence.expression ha (hclosing next)
      exact ⟨_, h⟩

/-- A sequence is stuck in the first statement that is.  The statements before it were read without
an error, so they need no completion. -/
theorem blames_statements : ∀ depth inBlock,
    Blames (fun xs c e ↦ e.position = c.position ∧ ∀ close : Token,
      close.kind = .eof ∨ close.kind = .symbol .rightBrace →
        Begins (fun zs ↦ ∃ ss, Sentences zs close ss) xs) (statements depth inBlock)
  | 0, _ => .exhaust
  | depth + 1, inBlock => by
    rw [statements]
    refine .peek_bind fun t ↦ .ite (fun _ ↦ .pure _) fun _ ↦ ?_
    refine Blames.bind ((blames_statement depth).attempt.imp ?_)
      ((reads_statement depth).attempt (moves_statement depth)) fun first xs ↦
        Blames.bind ((blames_statements depth inBlock).imp ?_) (reads_statements depth inBlock)
          fun rest ys ↦ .pure _
    · rintro xs c e ⟨hpos, hbegins⟩ -
      refine ⟨hpos, fun close _ ↦ hbegins.imp ?_⟩
      rintro zs ⟨s, hs⟩
      have h := Sentences.cons (hs (following [] close)) .none
      exact ⟨_, by simpa using h⟩
    · rintro ys c e ⟨hpos, hbegins⟩ ⟨s, rfl, hs⟩ -
      refine ⟨hpos, fun close hclose ↦ ?_⟩
      cases ys with
      | nil =>
        -- the statement before the error can be the last one
        have hlast : Sentence xs (following [] close) s := hs.before_end hclose
        exact ⟨[], rfl, _, by simpa using Sentences.cons hlast .none⟩
      | cons y ys =>
        obtain ⟨ws, hws, ss, hss⟩ := hbegins close hclose
        have hfirst : Sentence xs (following (y :: ys ++ ws) close) s := hs
        exact ⟨ws, hws, _, by simpa using Sentences.cons hfirst hss⟩

theorem blames_block : ∀ depth (brace : Token), brace.kind = .symbol .leftBrace →
    Blames (fun xs ↦ Stuck (fun zs ↦ ∃ b, Enclosed zs b) (brace :: xs)) (block depth brace)
  | 0, _, _ => .exhaust
  | depth + 1, brace, hbrace => by
    have hclose : (Filler.mark .rightBrace).kind = .symbol .rightBrace := rfl
    rw [block]
    refine Blames.bind ((blames_statements depth true).imp ?_) (reads_statements depth true)
      fun body xs ↦ .take_or_fail fun t ↦ ?_
    · rintro xs c e ⟨hpos, hbegins⟩
      refine ⟨hpos, (hbegins _ (.inr hclose)).wrap [brace]
        [Filler.mark .rightBrace] rfl ?_⟩
      rintro zs ⟨ss, hss⟩
      exact ⟨_, .mk hbrace hss hclose⟩
    · by_cases heof : t.kind = .eof
      · refine .inl ⟨_, if_pos heof, ?_⟩
        rintro ⟨hbody, -⟩
        have h := Enclosed.mk hbrace (hbody.before_end (.inr hclose)) hclose
        exact ⟨rfl, [Filler.mark .rightBrace], rfl, _, by simpa using h⟩
      · rw [if_neg heof]
        exact .inr (.pure _)

end

end Parser

end MonkeyLang
