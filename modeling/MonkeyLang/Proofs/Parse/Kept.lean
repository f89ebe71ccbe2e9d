import MonkeyLang.Proofs.Parse.Soundness
import MonkeyLang.Proofs.Program.WellFormed

/-!
# The programs that are kept

Whatever is wrong with a text, the program that is kept of it is well formed: `wellFormed_parse`.

`Parser.Yields P read` says that the reader gives only values with `P` from tokens that can lie in
a text, and leaves such tokens, whether it is done or gives up.

For texts without errors this would follow from the grammar.  With errors there is no derivation:
statements were dropped, the program consists of what lay between them, and the tokens of what was
dropped belong to nothing.  But each statement that is kept was read by a reader that was done, and
a reader never makes a node of tokens that do not fit it.  This is an invariant of readers, not of
programs.  A reader that gives up, and is not heard of any more, still has to leave the tokens in
order for the next one.

The lemmas for the basic readers put on record what is known of a token after it was looked at or
taken.  The end of the input is no token that a text can hold, so it is excepted, and every node
that keeps a token needs to have seen that it was another one.
-/

set_option autoImplicit false

namespace MonkeyLang

open Grammar

/-! ## What a reader yields -/

namespace Parser

/-- The tokens left can lie in a text. -/
def State.WellFormed (s : State) : Prop := ∀ x ∈ s.stream.pending, x.kind.WellFormed

/-- From tokens that can lie in a text, the reader gives only values with `P`.  What a block or a
list yields is put together from what their parts yield. -/
def Yields {α : Type} (P : α → Prop) (read : Parser α) : Prop :=
  ∀ s : State, s.WellFormed →
    (read s).Post (fun v t ↦ t.WellFormed ∧ P v) (fun _ t ↦ t.WellFormed) True

/-- The token in front, which may be the end of the input when no token is left.  The end is no
token that a text can hold, hence the hypothesis. -/
theorem State.WellFormed.head {s : State} (h : s.WellFormed) :
    s.stream.head.kind ≠ .eof → s.stream.head.kind.WellFormed := by
  obtain ⟨⟨pending, finish⟩, errors⟩ := s
  cases pending with
  | nil => exact fun hne ↦ absurd rfl hne
  | cons x xs => exact fun _ ↦ h x List.mem_cons_self

theorem State.WellFormed.tail {s : State} (h : s.WellFormed) :
    State.WellFormed ⟨s.stream.tail, s.errors⟩ := by
  intro x hx
  rw [Stream.pending_tail] at hx
  exact h x (List.mem_of_mem_tail hx)

namespace Yields

variable {α β : Type} {P : α → Prop} {Q : β → Prop}

theorem pure {v : α} (h : P v) : Yields P (pure v : Parser α) := fun _ hs ↦ ⟨hs, h⟩

theorem exhaust : Yields P (Action.exhaust : Parser α) := fun _ _ ↦ trivial

theorem fail (e : ParseError) : Yields P (fail e : Parser α) := fun _ hs ↦ hs

theorem ite {c : Prop} [Decidable c] {read other : Parser α} (h : c → Yields P read)
    (h' : ¬ c → Yields P other) : Yields P (if c then read else other) := by
  split
  · exact h ‹_›
  · exact h' ‹_›

theorem bind {read : Parser α} {next : α → Parser β} (h : Yields P read)
    (hnext : ∀ v, P v → Yields Q (next v)) : Yields Q (read >>= next) :=
  fun s hs ↦ (h s hs).bind fun v t ht ↦ hnext v ht.2 t ht.1

/-- Looking at a token gives one that can lie in a text, unless it is the end of the input.  Most
readers go on to find out that it is not. -/
theorem peek_bind {next : Token → Parser β}
    (h : ∀ t : Token, (t.kind ≠ .eof → t.kind.WellFormed) → Yields Q (next t)) :
    Yields Q (peek >>= next) :=
  fun s hs ↦ h s.stream.head hs.head s hs

theorem take_bind {next : Token → Parser β}
    (h : ∀ t : Token, (t.kind ≠ .eof → t.kind.WellFormed) → Yields Q (next t)) :
    Yields Q (take >>= next) :=
  fun s hs ↦ h s.stream.head hs.head _ hs.tail

/-- An expected token is of a type that is known, and this tells whether it is the end.  If another
token is in front, the reader gives up, and there is no value to speak of. -/
theorem expect_bind {expected : TokenType} {next : Token → Parser β}
    (h : ∀ t : Token, t.type = expected → (t.kind ≠ .eof → t.kind.WellFormed) →
      Yields Q (next t)) : Yields Q (expect expected >>= next) := by
  intro s hs
  rw [Action.bind_apply]
  by_cases htype : s.stream.head.type = expected
  · rw [expect_of_eq htype]
    exact h s.stream.head htype hs.head _ hs.tail
  · rw [expect_of_ne htype]
    exact hs

theorem skipIf_bind {wanted : TokenType} {next : Unit → Parser β} (h : Yields Q (next ())) :
    Yields Q (skipIf wanted >>= next) := by
  rw [skipIf, bind_assoc]
  refine .peek_bind fun t _ ↦ ?_
  split
  · rw [bind_assoc]
    exact .take_bind fun _ _ ↦ h
  · exact h

/-- A name that is read is that of a token. -/
theorem identifier_bind {next : Identifier → Parser β}
    (h : ∀ id : Identifier, id.WellFormed → Yields Q (next id)) :
    Yields Q (identifier >>= next) := by
  rw [identifier, bind_assoc]
  refine .expect_bind fun t htype ht ↦ h ⟨t, t.literal⟩ ?_
  have hkind : t.kind = .ident t.literal := Token.kind_of_type_ident htype
  exact ⟨hkind, ht (by simp [hkind])⟩

/-- Where statements fail and the reader goes on, there is no value of the statement that failed.
The tokens it left are in order all the same, which is what the second clause of `Yields` is for.
-/
theorem attempt_bind {read : Parser α} {next : Option α → Parser β} (h : Yields P read)
    (hnext : ∀ o : Option α, (∀ v ∈ o, P v) → Yields Q (next o)) :
    Yields Q (attempt read >>= next) := by
  intro s hs
  have hread := h s hs
  rw [Action.bind_apply, attempt]
  cases hcases : read s with
  | done v t =>
    rw [hcases] at hread
    exact hnext (some v) (by simpa using hread.2) t hread.1
  | stop e t =>
    rw [hcases] at hread
    exact hnext none (by simp) t hread
  | exhausted => trivial

end Yields

/-! ## Every reader -/

theorem yields_moreParameters (depth : Nat) :
    Yields (fun ids ↦ ∀ id ∈ ids, Identifier.WellFormed id) (moreParameters depth) := by
  induction depth with
  | zero => exact .exhaust
  | succ depth ih =>
    refine .peek_bind fun _ _ ↦ .ite (fun _ ↦ ?_) fun _ ↦ ?_
    · refine .take_bind fun _ _ ↦ .identifier_bind fun id hid ↦ ih.bind fun ids hids ↦ .pure ?_
      exact List.forall_mem_cons.2 ⟨hid, hids⟩
    · exact .expect_bind fun _ _ _ ↦ .pure (by simp)

theorem yields_parameters (depth : Nat) :
    Yields (fun ids ↦ ∀ id ∈ ids, Identifier.WellFormed id) (parameters depth) := by
  refine .peek_bind fun _ _ ↦ .ite (fun _ ↦ ?_) fun _ ↦ ?_
  · exact .take_bind fun _ _ ↦ .pure (by simp)
  · refine .identifier_bind fun id hid ↦ (yields_moreParameters depth).bind fun ids hids ↦ .pure ?_
    exact List.forall_mem_cons.2 ⟨hid, hids⟩

mutual

theorem yields_expression : ∀ depth level, Yields Expr.WellFormed (expression depth level)
  | 0, _ => .exhaust
  | depth + 1, level =>
    (yields_operand depth).bind fun left hleft ↦ yields_climb depth level left hleft

/-- The loop is handed the expression that was collected so far, and gives back this one or a
longer one. -/
theorem yields_climb : ∀ depth level (left : Expr), left.WellFormed →
    Yields Expr.WellFormed (climb depth level left)
  | 0, _, _, _ => .exhaust
  | depth + 1, level, left, hleft => by
    refine .peek_bind fun t _ ↦ .ite (fun _ ↦ ?_) fun _ ↦ .pure hleft
    split
    · exact .pure hleft
    · rename_i way hway
      exact .take_bind fun _ _ ↦ (yields_continued depth way t left hway hleft).bind
        fun longer hlonger ↦ yields_climb depth level longer hlonger

/-- An operator that continues an expression is in the table of its tier, and a node is well formed
only with such an operator. -/
theorem yields_continued : ∀ depth way (t : Token) (left : Expr),
    continuation? t.kind = some way → left.WellFormed →
    Yields Expr.WellFormed (continued depth way t left)
  | 0, _, _, _, _, _ => .exhaust
  | depth + 1, .operation, t, left, hway, hleft => by
    obtain ⟨tier, op, hop, hkind, hofKind, -⟩ := operator_of_operation hway
    simp only [continued, hofKind]
    refine (yields_expression depth _).bind fun right hright ↦ .pure ?_
    exact ⟨hkind, ⟨tier, hop⟩, hleft, hright⟩
  | depth + 1, .call, t, left, hway, hleft =>
    (yields_expressions depth _).bind fun _ harguments ↦
      .pure ⟨kind_of_call hway, hleft, harguments⟩
  | depth + 1, .index, t, left, hway, hleft =>
    (yields_expression depth _).bind fun _ hposition ↦
      .expect_bind fun _ _ _ ↦ .pure ⟨kind_of_index hway, hleft, hposition⟩

/-- One case for each kind of token that an operand can start with.  A number is the only one that
can turn out to be unusable after all. -/
theorem yields_operand : ∀ depth, Yields Expr.WellFormed (operand depth)
  | 0 => .exhaust
  | depth + 1 => by
    refine .take_bind fun t ht ↦ ?_
    split
    · rename_i hkind
      exact .pure ⟨hkind, ht (by simp [hkind])⟩
    · rename_i numeral hkind
      split
      · rename_i n hn
        obtain ⟨hlimit, hn⟩ := integer?_eq_some hn
        exact .pure ⟨numeral, hkind, ht (by simp [hkind]), hlimit, hn⟩
      · exact .fail _
    · rename_i hkind
      exact .pure ⟨hkind, ht (by simp [hkind])⟩
    · rename_i hkind
      exact .pure hkind
    · rename_i hkind
      exact .pure hkind
    · rename_i hkind
      rw [hkind]
      exact (yields_expression depth _).bind fun right hright ↦ .pure ⟨hkind, .inl rfl, hright⟩
    · rename_i hkind
      rw [hkind]
      exact (yields_expression depth _).bind fun right hright ↦ .pure ⟨hkind, .inr rfl, hright⟩
    · exact (yields_expression depth _).bind fun inner hinner ↦
        .expect_bind fun _ _ _ ↦ .pure hinner
    · rename_i hkind
      exact yields_conditional depth t hkind
    · rename_i hkind
      refine .expect_bind fun _ _ _ ↦ (yields_parameters depth).bind fun ids hids ↦
        .expect_bind fun brace hbrace _ ↦
          (yields_block depth brace (Token.kind_of_type_symbol hbrace)).bind fun body hbody ↦
            .pure ?_
      exact ⟨hkind, hids, hbody⟩
    · rename_i hkind
      exact (yields_expressions depth _).bind fun elements helements ↦ .pure ⟨hkind, helements⟩
    · rename_i hkind
      exact (yields_pairs depth).bind fun entries hentries ↦ .pure ⟨hkind, hentries⟩
    · exact .fail _

theorem yields_conditional : ∀ depth (t : Token), t.kind = .keyword .kwIf →
    Yields Expr.WellFormed (conditional depth t)
  | 0, _, _ => .exhaust
  | depth + 1, t, ht => by
    refine .expect_bind fun _ _ _ ↦ (yields_expression depth _).bind fun condition hcondition ↦
      .expect_bind fun _ _ _ ↦ .expect_bind fun brace hbrace _ ↦
        (yields_block depth brace (Token.kind_of_type_symbol hbrace)).bind fun consequence hblock ↦
          .peek_bind fun _ _ ↦ .ite (fun _ ↦ ?_) fun _ ↦ ?_
    · refine .take_bind fun _ _ ↦ .expect_bind fun brace' hbrace' _ ↦
        (yields_block depth brace' (Token.kind_of_type_symbol hbrace')).bind
          fun alternative hblock' ↦ .pure ?_
      exact ⟨ht, hcondition, hblock, hblock'⟩
    · exact .pure ⟨ht, hcondition, hblock⟩

theorem yields_expressions : ∀ depth close, Yields WellFormedExprs (expressions depth close)
  | 0, _ => .exhaust
  | depth + 1, close => by
    refine .peek_bind fun _ _ ↦ .ite (fun _ ↦ ?_) fun _ ↦ ?_
    · exact .take_bind fun _ _ ↦ .pure trivial
    · exact (yields_expression depth _).bind fun first hfirst ↦
        (yields_moreExpressions depth close).bind fun rest hrest ↦ .pure ⟨hfirst, hrest⟩

theorem yields_moreExpressions : ∀ depth close,
    Yields WellFormedExprs (moreExpressions depth close)
  | 0, _ => .exhaust
  | depth + 1, close => by
    refine .peek_bind fun _ _ ↦ .ite (fun _ ↦ ?_) fun _ ↦ ?_
    · exact .take_bind fun _ _ ↦ (yields_expression depth _).bind fun next hnext ↦
        (yields_moreExpressions depth close).bind fun rest hrest ↦ .pure ⟨hnext, hrest⟩
    · exact .expect_bind fun _ _ _ ↦ .pure trivial

theorem yields_pairs : ∀ depth, Yields WellFormedPairs (pairs depth)
  | 0 => .exhaust
  | depth + 1 => by
    refine .peek_bind fun _ _ ↦ .ite (fun _ ↦ ?_) fun _ ↦ ?_
    · exact .take_bind fun _ _ ↦ .pure trivial
    · refine (yields_expression depth _).bind fun key hkey ↦ .expect_bind fun _ _ _ ↦
        (yields_expression depth _).bind fun value hvalue ↦ .peek_bind fun _ _ ↦
          .ite (fun _ ↦ ?_) fun _ ↦ ?_
      · exact (yields_pairs depth).bind fun rest hrest ↦ .pure ⟨hkey, hvalue, hrest⟩
      · exact .expect_bind fun _ _ _ ↦
          (yields_pairs depth).bind fun rest hrest ↦ .pure ⟨hkey, hvalue, hrest⟩

theorem yields_statement : ∀ depth, Yields Stmt.WellFormed (statement depth)
  | 0 => .exhaust
  | depth + 1 => by
    refine .peek_bind fun t _ ↦ ?_
    split
    · rename_i hkind
      exact .take_bind fun _ _ ↦ .identifier_bind fun id hid ↦ .expect_bind fun _ _ _ ↦
        (yields_expression depth _).bind fun value hvalue ↦
          .skipIf_bind (.pure ⟨hkind, hid, hvalue⟩)
    · rename_i hkind
      refine .take_bind fun _ _ ↦ .peek_bind fun _ _ ↦ .ite (fun _ ↦ ?_) fun _ ↦ ?_
      · exact .skipIf_bind (.pure hkind)
      · exact (yields_expression depth _).bind fun value hvalue ↦
          .skipIf_bind (.pure ⟨hkind, hvalue⟩)
    · exact (yields_expression depth _).bind fun e he ↦ .skipIf_bind (.pure ⟨rfl, he⟩)

/-- What is kept of a sequence are the statements that were read, with those that failed left out.
This is where programs come from that no grammar derives. -/
theorem yields_statements : ∀ depth inBlock, Yields WellFormedStmts (statements depth inBlock)
  | 0, _ => .exhaust
  | depth + 1, inBlock => by
    refine .peek_bind fun _ _ ↦ .ite (fun _ ↦ .pure trivial) fun _ ↦ ?_
    refine .attempt_bind (yields_statement depth) fun first hfirst ↦
      (yields_statements depth inBlock).bind fun rest hrest ↦ .pure ?_
    cases first with
    | none => exact hrest
    | some s => exact ⟨hfirst s rfl, hrest⟩

theorem yields_block : ∀ depth (brace : Token), brace.kind = .symbol .leftBrace →
    Yields Block.WellFormed (block depth brace)
  | 0, _, _ => .exhaust
  | depth + 1, _, hbrace =>
    (yields_statements depth true).bind fun _ hbody ↦ .take_bind fun _ _ ↦
      .ite (fun _ ↦ .fail _) fun _ ↦ .pure ⟨hbrace, hbody⟩

end

end Parser

/-! ## Whole programs -/

/-- **Whatever is kept of a text is well formed.** -/
theorem wellFormed_parse (text : String) : (parse text).program.WellFormed := by
  have hyields := Parser.yields_statements (Cursor.ofText text).stream.depth false
    ⟨(Cursor.ofText text).stream, []⟩ (Cursor.ofText text).wellFormed_of_mem_pending
  rw [parse, Stream.parse]
  cases hread : Parser.statements (Cursor.ofText text).stream.depth false
      ⟨(Cursor.ofText text).stream, []⟩ with
  | done statements t =>
    rw [hread] at hyields
    exact hyields.2
  | stop e t => trivial
  | exhausted => trivial

end MonkeyLang
