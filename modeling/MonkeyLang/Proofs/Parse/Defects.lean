import MonkeyLang.Proofs.Parse.Soundness

/-!
# Every defective token is reported once

A token is defective when it is wrong by itself, wherever it stands: an illegal character, a string
without its closing quote, or a number that is too large.  `lexicalErrors_eq_defects` says that the
errors about such tokens are exactly the defects of the text, in their order, whatever else is
wrong with it.

The reason is an invariant.  At any time, the defects that were reported and those of the tokens
still to be taken make up one and the same list (`Parser.State.defects`): a defective token can
only be taken as the start of an expression, and then it is reported at once.

## Why nothing is missed

After an error nothing is skipped.  A token is taken for one of three reasons: it was looked at and
found to be a certain symbol or keyword, it was expected to be of a type, or it is taken blindly,
as the start of an expression or the end of a block.  The first two exclude defective tokens, since
none of the types that are expected is that of a defective token: names and symbols have no
defects.  A block is only ever closed in front of a brace or the end of the input.  What remains is
the start of an expression, and an operand that is defective fails.

The other way around, a defective token is complained about by `expect` as well, when something
else should stand there.  This is an error about the place and no lexical one, so it does not count
here.  The token was not taken then, and is reported when the next statement starts with it.

The debt that a taken token leaves until its defect was reported is the parameter `owed` of
`Parser.Reports`.  It is one error at most, and it is always paid in the next step.
-/

set_option autoImplicit false

namespace MonkeyLang

/-! ## Defects of tokens -/

/-- Whether an error is about a token that is wrong by itself. -/
def ParseError.isLexical : ParseError → Bool
  | invalidInteger _ _ | illegalToken _ _ | unterminatedString _ => true
  | unexpectedToken _ _ _ | noExpression _ _ => false

/-- What is wrong with a token by itself: the error of an illegal character, of a string that is
not closed, or of a number beyond the largest signed 64-bit integer.  An error about a defective
token names its text, and the defect of a token is that error. -/
def Token.defect? (t : Token) : Option ParseError :=
  match t.kind with
  | .illegal c => some (.illegalToken c t.position)
  | .unterminated _ => some (.unterminatedString t.position)
  | .int digits =>
    if Decimal.value digits.toList > Nat.pow 2 63 - 1 then some (.invalidInteger digits t.position)
    else none
  | _ => none

/-- Symbols have no defects. -/
theorem Token.defect?_eq_none_of_symbol {t : Token} {c : Symbol} (h : t.kind = .symbol c) :
    t.defect? = none := by
  rw [Token.defect?, h]

theorem Token.defect?_eq_none_of_keyword {t : Token} {k : Keyword} (h : t.kind = .keyword k) :
    t.defect? = none := by
  rw [Token.defect?, h]

/-- Only a symbol continues an expression, and symbols are never defective. -/
theorem Token.defect?_eq_none_of_continuation {t : Token} {way : Continuation}
    (h : continuation? t.kind = some way) : t.defect? = none := by
  rw [continuation?.eq_def] at h
  split at h <;> first | exact defect?_eq_none_of_symbol ‹_› | exact absurd h (by simp)

/-- The defects of a stream start with that of its next token. -/
theorem Stream.filterMap_defect?_pending (s : Stream) :
    s.pending.filterMap Token.defect? =
      s.head.defect?.toList ++ s.tail.pending.filterMap Token.defect? := by
  obtain ⟨pending, finish⟩ := s
  cases pending with
  | nil => rfl
  | cons t ts =>
    show (t :: ts).filterMap Token.defect? = t.defect?.toList ++ ts.filterMap Token.defect?
    rw [List.filterMap_cons]
    cases t.defect? <;> rfl

namespace Parser

/-! ## The invariant

Reading conserves defects.  Some readers look at a token before they take it, and so the invariant
has to know of a token that was looked at. -/

/-- The defects reported so far, and those of the tokens still to be taken.  This list is the
invariant: a token is in its second part until it is taken, and the error about it is in the first
part afterwards. -/
def State.defects (s : State) : List ParseError :=
  s.errors.filter ParseError.isLexical ++ s.stream.pending.filterMap Token.defect?

/-- Started with `owed` still to be reported, the reader reports it first, and keeps the invariant
from there on.  If `known` is a token, the reader is only started in front of that token.  To owe
is to have taken a defective token whose error is not yet recorded.  What is owed has to be
recorded before anything else is. -/
def Reports {α : Type} (known : Option Token) (owed : List ParseError) (read : Parser α) : Prop :=
  ∀ s : State, (∀ t ∈ known, s.stream.head = t) →
    let before := s.errors.filter ParseError.isLexical ++ owed ++
      s.stream.pending.filterMap Token.defect?
    (read s).Post (fun _ t ↦ t.defects = before) (fun _ t ↦ t.defects = before) True

namespace Reports

variable {α β : Type} {known : Option Token} {owed : List ParseError}

/-- A reader that works in front of any token works in front of a known one. -/
theorem anywhere {read : Parser α} (h : Reports none owed read) : Reports known owed read :=
  fun s _ ↦ h s (by simp)

theorem pure (value : α) : Reports known [] (pure value : Parser α) := by
  intro s _
  show s.defects = _
  rw [State.defects, List.append_nil]

theorem exhaust : Reports known owed (Action.exhaust : Parser α) := fun _ _ ↦ trivial

/-- An error that is not about a defect leaves the invariant as it is. -/
theorem fail {e : ParseError} (he : e.isLexical = false) :
    Reports known [] (fail e : Parser α) := by
  intro s _
  show (s.errors ++ [e]).filter ParseError.isLexical ++ _ = _
  rw [List.filter_append, List.filter_cons_of_neg (by simp [he]), List.filter_nil]

/-- The error that is owed is reported. -/
theorem fail_owed {e : ParseError} (he : e.isLexical = true) :
    Reports known [e] (Parser.fail e : Parser α) := by
  intro s _
  show (s.errors ++ [e]).filter ParseError.isLexical ++ _ = _
  rw [List.filter_append, List.filter_cons_of_pos he, List.filter_nil]

/-- What is owed is paid by the reader that comes first. -/
theorem bind {read : Parser α} {next : α → Parser β} (h : Reports known owed read)
    (hnext : ∀ v, Reports none [] (next v)) : Reports known owed (read >>= next) := by
  intro s hs
  refine (h s hs).bind fun v t ht ↦ ?_
  have hrest := hnext v t (by simp)
  rw [List.append_nil] at hrest
  refine hrest.imp (fun _ u hu ↦ ?_) fun _ u hu ↦ ?_
  · exact hu.trans ht
  · exact hu.trans ht

theorem ite {c : Prop} [Decidable c] {read other : Parser α} (h : c → Reports known owed read)
    (h' : ¬ c → Reports known owed other) : Reports known owed (if c then read else other) := by
  split
  · exact h ‹_›
  · exact h' ‹_›

theorem peek_bind {next : Token → Parser β} (h : ∀ t, Reports (some t) owed (next t)) :
    Reports known owed (peek >>= next) := by
  intro s _
  exact h s.stream.head s (by simp)

/-- What is wrong with a token is owed from the moment it is taken. -/
theorem take_bind {next : Token → Parser β}
    (h : ∀ t, (∀ u ∈ known, t = u) → Reports none t.defect?.toList (next t)) :
    Reports known [] (take >>= next) := by
  intro s hs
  have hnext := h s.stream.head hs ⟨s.stream.tail, s.errors⟩ (by simp)
  rw [List.append_nil, Stream.filterMap_defect?_pending, ← List.append_assoc]
  exact hnext

/-- Nothing is owed for a token that is known not to be defective. -/
theorem take_known {t : Token} {next : Token → Parser β} (ht : t.defect? = none)
    (h : Reports none [] (next t)) : Reports (some t) [] (take >>= next) := by
  refine take_bind fun u hu ↦ ?_
  obtain rfl : u = t := hu t rfl
  rw [ht]
  exact h

/-- A token that is expected is of a type without defects. -/
theorem expect_bind {expected : TokenType} {next : Token → Parser β}
    (hexpected : ∀ t : Token, t.type = expected → t.defect? = none)
    (h : ∀ t, t.type = expected → Reports none [] (next t)) :
    Reports known [] (expect expected >>= next) := by
  rw [Parser.expect, bind_assoc]
  refine peek_bind fun t ↦ ?_
  by_cases ht : t.type = expected
  · rw [if_pos ht]
    exact take_known (hexpected t ht) (h t ht)
  · rw [if_neg ht]
    exact fail rfl

theorem symbol_bind {c : Symbol} {next : Token → Parser β}
    (h : ∀ t : Token, t.kind = .symbol c → Reports none [] (next t)) :
    Reports known [] (expect (.symbol c) >>= next) := by
  refine expect_bind (fun t ht ↦ ?_) fun t ht ↦ h t (Token.kind_of_type_symbol ht)
  exact Token.defect?_eq_none_of_symbol (Token.kind_of_type_symbol ht)

theorem identifier_bind {next : Identifier → Parser β} (h : ∀ id, Reports none [] (next id)) :
    Reports known [] (identifier >>= next) := by
  rw [identifier, bind_assoc]
  refine expect_bind (fun t ht ↦ ?_) fun t _ ↦ h _
  rw [Token.defect?, Token.kind_of_type_ident ht]

theorem skipIf_bind {c : Symbol} {next : Unit → Parser β} (h : Reports none [] (next ())) :
    Reports known [] (skipIf (.symbol c) >>= next) := by
  rw [skipIf, bind_assoc]
  refine peek_bind fun t ↦ ?_
  by_cases ht : t.type = .symbol c
  · rw [if_pos ht, bind_assoc]
    exact take_known (Token.defect?_eq_none_of_symbol (Token.kind_of_type_symbol ht)) h
  · rw [if_neg ht]
    exact h.anywhere

/-- A statement that is given up has reported its defects. -/
theorem attempt {read : Parser α} (h : Reports known owed read) :
    Reports known owed (attempt read) := by
  intro s hs
  have hread := h s hs
  rw [Parser.attempt]
  cases hcases : read s with
  | done v t =>
    rw [hcases] at hread
    exact hread
  | stop e t =>
    rw [hcases] at hread
    exact hread
  | exhausted => trivial

end Reports

/-! ## Every reader

The reader of operands is the only one that has a debt to pay. -/

theorem reports_moreParameters (depth : Nat) : Reports none [] (moreParameters depth) := by
  induction depth with
  | zero => exact .exhaust
  | succ depth ih =>
    rw [moreParameters]
    refine .peek_bind fun t ↦ .ite (fun hcomma ↦ ?_) fun _ ↦ ?_
    · refine .take_known (Token.defect?_eq_none_of_symbol hcomma) ?_
      exact .identifier_bind fun id ↦ ih.bind fun rest ↦ .pure _
    · exact .symbol_bind fun _ _ ↦ .pure _

theorem reports_parameters (depth : Nat) : Reports none [] (parameters depth) := by
  rw [parameters]
  refine .peek_bind fun t ↦ .ite (fun hclose ↦ ?_) fun _ ↦ ?_
  · exact .take_known (Token.defect?_eq_none_of_symbol hclose) (.pure _)
  · exact .identifier_bind fun id ↦ (reports_moreParameters depth).bind fun rest ↦ .pure _

/-- A token that starts no expression is reported, and as a defect if it is one. -/
theorem reports_noOperand {α : Type} {t : Token} (h : ∀ digits, t.kind ≠ .int digits) :
    Reports none t.defect?.toList (fail (noOperand t) : Parser α) := by
  rw [Token.defect?, noOperand]
  cases hkind : t.kind with
  | illegal c => exact .fail_owed rfl
  | unterminated text => exact .fail_owed rfl
  | int digits => exact absurd hkind (h digits)
  | _ => exact .fail rfl

/-- A number that is too large is reported as such. -/
theorem reports_int {digits : String} {t : Token} (h : t.kind = .int digits) :
    Reports none t.defect?.toList
      (match integer? digits with
      | some n => pure (.int t n)
      | none => fail (.invalidInteger digits t.position) : Parser Expr) := by
  have hpower : integerLimit = Nat.pow 2 63 := rfl
  have hpos : 0 < integerLimit := by decide
  rw [Token.defect?, h, integer?]
  by_cases hlimit : Decimal.value digits.toList < integerLimit
  · have hsmall : ¬ Decimal.value digits.toList > Nat.pow 2 63 - 1 := by
      rw [← hpower]
      omega
    simp only [if_pos hlimit, if_neg hsmall]
    exact .pure _
  · have hlarge : Decimal.value digits.toList > Nat.pow 2 63 - 1 := by
      rw [← hpower]
      omega
    simp only [if_neg hlimit, if_pos hlarge]
    exact .fail_owed rfl

mutual

theorem reports_expression : ∀ depth level, Reports none [] (expression depth level)
  | 0, _ => .exhaust
  | depth + 1, level => by
    rw [expression]
    exact (reports_operand depth).bind fun left ↦ reports_climb depth level left

theorem reports_climb : ∀ depth level left, Reports none [] (climb depth level left)
  | 0, _, _ => .exhaust
  | depth + 1, level, left => by
    rw [climb]
    refine .peek_bind fun t ↦ .ite (fun _ ↦ ?_) fun _ ↦ .pure left
    split
    · exact .pure left
    · rename_i way hway
      refine .take_known (Token.defect?_eq_none_of_continuation hway) ?_
      exact (reports_continued depth way t left hway).bind fun longer ↦
        reports_climb depth level longer

theorem reports_continued : ∀ depth way (t : Token) left, continuation? t.kind = some way →
    Reports none [] (continued depth way t left)
  | 0, _, _, _, _ => .exhaust
  | depth + 1, .operation, t, left, hway => by
    obtain ⟨op, hop⟩ := ofKind?_of_operation hway
    rw [continued, hop]
    exact (reports_expression depth _).bind fun right ↦ .pure _
  | depth + 1, .call, t, left, _ => by
    rw [continued]
    exact (reports_expressions depth .rightParen).bind fun arguments ↦ .pure _
  | depth + 1, .index, t, left, _ => by
    rw [continued]
    exact (reports_expression depth _).bind fun position ↦ .symbol_bind fun _ _ ↦ .pure _

/-- The only place where a defective token can be taken.  Each kind of defect has its own case, and
each of them fails. -/
theorem reports_operand : ∀ depth, Reports none [] (operand depth)
  | 0 => .exhaust
  | depth + 1 => by
    rw [operand]
    refine .take_bind fun t _ ↦ ?_
    -- a defective token ends in one of the two branches that report it; all others owe nothing
    split
    · rename_i hkind
      rw [Token.defect?, hkind]
      exact .pure _
    · rename_i hkind
      exact reports_int hkind
    · rename_i hkind
      rw [Token.defect?, hkind]
      exact .pure _
    · rename_i hkind
      rw [Token.defect?_eq_none_of_keyword hkind]
      exact .pure _
    · rename_i hkind
      rw [Token.defect?_eq_none_of_keyword hkind]
      exact .pure _
    · rename_i hkind
      rw [Token.defect?_eq_none_of_symbol hkind, hkind]
      exact (reports_expression depth _).bind fun right ↦ .pure _
    · rename_i hkind
      rw [Token.defect?_eq_none_of_symbol hkind, hkind]
      exact (reports_expression depth _).bind fun right ↦ .pure _
    · rename_i hkind
      rw [Token.defect?_eq_none_of_symbol hkind]
      exact (reports_expression depth _).bind fun inner ↦ .symbol_bind fun _ _ ↦ .pure _
    · rename_i hkind
      rw [Token.defect?_eq_none_of_keyword hkind]
      exact reports_conditional depth t
    · rename_i hkind
      rw [Token.defect?_eq_none_of_keyword hkind]
      exact .symbol_bind fun _ _ ↦ (reports_parameters depth).bind fun names ↦
        .symbol_bind fun brace _ ↦ (reports_block depth brace).bind fun body ↦ .pure _
    · rename_i hkind
      rw [Token.defect?_eq_none_of_symbol hkind]
      exact (reports_expressions depth .rightBracket).bind fun elements ↦ .pure _
    · rename_i hkind
      rw [Token.defect?_eq_none_of_symbol hkind]
      exact (reports_pairs depth).bind fun entries ↦ .pure _
    · rename_i hint _ _ _ _ _ _ _ _ _ _
      exact reports_noOperand hint

theorem reports_conditional : ∀ depth t, Reports none [] (conditional depth t)
  | 0, _ => .exhaust
  | depth + 1, t => by
    rw [conditional]
    refine .symbol_bind fun _ _ ↦ (reports_expression depth _).bind fun condition ↦
      .symbol_bind fun _ _ ↦ .symbol_bind fun brace _ ↦
        (reports_block depth brace).bind fun consequence ↦ ?_
    refine .peek_bind fun next ↦ .ite (fun helse ↦ ?_) fun _ ↦ .pure _
    refine .take_known (Token.defect?_eq_none_of_keyword helse) ?_
    exact .symbol_bind fun brace _ ↦ (reports_block depth brace).bind fun alternative ↦ .pure _

theorem reports_expressions : ∀ depth close, Reports none [] (expressions depth (.symbol close))
  | 0, _ => .exhaust
  | depth + 1, close => by
    rw [expressions]
    refine .peek_bind fun t ↦ .ite (fun hclose ↦ ?_) fun _ ↦ ?_
    · refine .take_known ?_ (.pure _)
      exact Token.defect?_eq_none_of_symbol (Token.kind_of_type_symbol hclose)
    · refine Reports.anywhere ?_
      exact (reports_expression depth _).bind fun first ↦
        (reports_moreExpressions depth close).bind fun rest ↦ .pure _

theorem reports_moreExpressions : ∀ depth close,
    Reports none [] (moreExpressions depth (.symbol close))
  | 0, _ => .exhaust
  | depth + 1, close => by
    rw [moreExpressions]
    refine .peek_bind fun t ↦ .ite (fun hcomma ↦ ?_) fun _ ↦ ?_
    · refine .take_known (Token.defect?_eq_none_of_symbol hcomma) ?_
      exact (reports_expression depth _).bind fun next ↦
        (reports_moreExpressions depth close).bind fun rest ↦ .pure _
    · exact .symbol_bind fun _ _ ↦ .pure _

theorem reports_pairs : ∀ depth, Reports none [] (pairs depth)
  | 0 => .exhaust
  | depth + 1 => by
    rw [pairs]
    refine .peek_bind fun t ↦ .ite (fun hclose ↦ ?_) fun _ ↦ ?_
    · exact .take_known (Token.defect?_eq_none_of_symbol hclose) (.pure _)
    · refine Reports.anywhere ?_
      refine (reports_expression depth _).bind fun key ↦ .symbol_bind fun _ _ ↦
        (reports_expression depth _).bind fun value ↦ .peek_bind fun next ↦
          .ite (fun _ ↦ ?_) fun _ ↦ ?_
      · exact ((reports_pairs depth).bind fun rest ↦ .pure _).anywhere
      · exact .symbol_bind fun _ _ ↦ (reports_pairs depth).bind fun rest ↦ .pure _

theorem reports_statement : ∀ depth, Reports none [] (statement depth)
  | 0 => .exhaust
  | depth + 1 => by
    rw [statement]
    refine .peek_bind fun t ↦ ?_
    split
    · rename_i hkind
      refine .take_known (Token.defect?_eq_none_of_keyword hkind) ?_
      exact .identifier_bind fun id ↦ .symbol_bind fun _ _ ↦
        (reports_expression depth _).bind fun value ↦ .skipIf_bind (.pure _)
    · rename_i hkind
      refine .take_known (Token.defect?_eq_none_of_keyword hkind) ?_
      refine .peek_bind fun next ↦ .ite (fun _ ↦ .skipIf_bind (.pure _)) fun _ ↦ ?_
      refine Reports.anywhere ?_
      exact (reports_expression depth _).bind fun value ↦ .skipIf_bind (.pure _)
    · refine Reports.anywhere ?_
      exact (reports_expression depth _).bind fun e ↦ .skipIf_bind (.pure _)

/-- After a statement that was given up, the reader goes on where that one stopped, with nothing
owed. -/
theorem reports_statements : ∀ depth inBlock, Reports none [] (statements depth inBlock)
  | 0, _ => .exhaust
  | depth + 1, inBlock => by
    rw [statements]
    refine .peek_bind fun t ↦ .ite (fun _ ↦ .pure _) fun _ ↦ ?_
    exact ((reports_statement depth).attempt.bind fun first ↦
      (reports_statements depth inBlock).bind fun rest ↦ .pure _).anywhere

theorem reports_block : ∀ depth brace, Reports none [] (block depth brace)
  | 0, _ => .exhaust
  | depth + 1, brace => by
    rw [block]
    intro s hs
    have hbody := reports_statements depth true s hs
    have hends := statements_ends depth true s
    rw [Action.bind_apply]
    cases hcases : statements depth true s with
    | done body t =>
      rw [hcases] at hbody hends
      -- the token after the statements is a closing brace or the end of the input
      have hnone : t.stream.head.defect? = none := by
        rw [Token.defect?]
        rcases hends with h | ⟨-, h⟩ <;> rw [h]
      have hlast : Reports (some t.stream.head) [] (do
          let u ← take
          if u.kind = .eof then
            fail (.unexpectedToken (.symbol .rightBrace) .eof u.position)
          else pure (Block.mk brace body)) :=
        .take_known hnone (.ite (fun _ ↦ .fail rfl) fun _ ↦ .pure _)
      have ht := hlast t (by simp)
      rw [List.append_nil] at ht
      exact ht.imp (fun _ _ hu ↦ hu.trans hbody) fun _ _ hu ↦ hu.trans hbody
    | stop e t =>
      rw [hcases] at hends
      exact hends.elim
    | exhausted => trivial

end

end Parser

/-! ## Whole programs -/

/-- The errors about defects are the defects of the tokens. -/
theorem Stream.lexicalErrors_parse (s : Stream) (h : ∀ t ∈ s.pending, t.kind ≠ .eof) :
    s.parse.errors.filter ParseError.isLexical = s.pending.filterMap Token.defect? := by
  obtain ⟨statements, t, hread, heof, hparse⟩ := s.parse_ends (Nat.le_refl _)
  have hmoves := Parser.moves_statements s.depth false ⟨s, []⟩
  have hreports := Parser.reports_statements s.depth false ⟨s, []⟩ (by simp)
  rw [hread] at hmoves hreports
  obtain ⟨⟨n, -, hskip⟩, -⟩ := hmoves
  -- nothing is left at the end, because a token that is left is no end of the input
  have hpending : t.stream.pending = [] := by
    cases hcases : t.stream.pending with
    | nil => rfl
    | cons u us =>
      have hmem : u ∈ s.pending := by
        have hdrop : t.stream.pending = s.pending.drop n := by rw [hskip, pending_skip]
        refine List.mem_of_mem_drop (i := n) ?_
        rw [← hdrop, hcases]
        exact List.mem_cons_self
      rw [head, hcases] at heof
      exact absurd heof (h u hmem)
  have hfinal : t.defects = s.pending.filterMap Token.defect? := hreports
  rw [Parser.State.defects, hpending, List.filterMap_nil, List.append_nil] at hfinal
  rw [hparse]
  exact hfinal

/-- **Every defective token is reported exactly once, in order.**  Of the errors of a text, those
about illegal characters, strings that are not closed and numbers that are too large are the defects
of its tokens, each with the text and the place of its token. -/
theorem lexicalErrors_eq_defects (text : String) :
    (parse text).errors.filter ParseError.isLexical =
      (tokenize text).filterMap Token.defect? := by
  rw [parse, Stream.lexicalErrors_parse _ (Cursor.ofText text).kind_ne_eof_of_mem_pending,
    tokenize, Stream.tokens, List.filterMap_append]
  exact (List.append_nil _).symm

end MonkeyLang
