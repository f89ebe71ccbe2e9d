import MonkeyLang.Proofs.Parse.Completeness
import MonkeyLang.Proofs.Parse.Places
import MonkeyLang.Proofs.Token.Cut

/-!
# Reading one text after another

A text that can be read and ends with a semicolon can be put in front of any other text, whatever
is wrong with that one.  Then both are read as if they stood alone, except that the places of the
second one are moved: `parse_append_of_semicolon`.

A semicolon ends a statement for good.  Neither the lexer nor a reader looks beyond it to know that
the statement is over, so nothing of the second text can leak into the first one.

## What could leak

* Characters: a name or a number at the end of the first text would go on with letters or digits of
  the second one.  A semicolon goes on with nothing.
* Tokens: without the semicolon an operator or a bracket at the start of the second text would
  continue the last expression, and an `else` would belong to a conditional.
* Errors: after an error the reader goes on where it stumbled, and a text that lacks a closing
  brace would take the second text for the rest of a block.  So the first text has to be without
  errors.

The second text may begin in any way, and its errors, their order and the statements around them
are the same as when it stands alone.

## Places

Lines are counted on, and columns only on the first line of the second text, as the first text may
end in the middle of a line.  `Position.shift` is this change of places.  The readers never look at
places, and so what is read of the second text is moved as a whole.
-/

set_option autoImplicit false

namespace MonkeyLang

open Grammar

/-! ## Places -/

/-- Where the place `p` of a text is when `cs` stands in front of the text: further down by the
lines of `cs`, and on the first line further to the right by what `cs` has on its last line. -/
def Position.shift (cs : List Char) (p : Position) : Position :=
  ⟨p.line + cs.count '\n',
    if p.line = 1 then p.column + (cs.reverse.takeWhile (· != '\n')).length else p.column⟩

namespace Position

/-- Moving right and shifting can be done in any order. -/
theorem shift_right (cs : List Char) (p : Position) : p.right.shift cs = (p.shift cs).right := by
  rw [shift, shift, right, right]
  split
  · simp only [Nat.add_right_comm]
  · rfl

/-- Going past a character and shifting can be done in any order. -/
theorem shift_step (cs : List Char) {p : Position} (hp : 1 ≤ p.line) (c : Char) :
    (p.step c).shift cs = (p.shift cs).step c := by
  rw [step, step]
  split
  · have hline : p.line + 1 ≠ 1 := by omega
    simp only [shift, if_neg hline, Nat.add_right_comm]
  · exact shift_right cs p

/-- Places of the second text are places of the whole text, moved.  Both ways of going past the two
texts count the same lines, and the column only matters on the last of them. -/
theorem after_append (front cs : List Char) : after (front ++ cs) = (after cs).shift front := by
  induction cs using List.reverseRecOn with
  | nil =>
    rw [List.append_nil]
    simp [after, shift]
  | append_singleton cs c ih =>
    have hline : 1 ≤ (after cs).line := Nat.le_add_right 1 _
    rw [← List.append_assoc, after_append_singleton, after_append_singleton, ih,
      shift_step front hline]

end Position

/-! ## Streams

Streams of tokens one after the other.  The lexer goes through the first text as it does when the
text stands alone, and arrives at the second one between two tokens. -/

namespace Stream

/-- To move a stream is to move its tokens and its end.  The ends of the input follow the first one
to the right, so `f` has to keep steps to the right. -/
theorem moved_of_map {f : Position → Position} (hright : ∀ p, f p.right = (f p).right)
    {s t : Stream} (hpending : t.pending = s.pending.map (Token.move f))
    (hfinish : t.finish = f s.finish) : s.Moved f t := by
  intro n
  induction n generalizing s t with
  | zero =>
    obtain ⟨xs, p⟩ := s
    obtain ⟨ys, q⟩ := t
    obtain rfl := hpending
    obtain rfl := hfinish
    cases xs <;> rfl
  | succ n ih =>
    refine ih ?_ ?_
    · rw [pending_tail, pending_tail, hpending, List.map_tail]
    · obtain ⟨xs, p⟩ := s
      obtain ⟨ys, q⟩ := t
      obtain rfl := hpending
      obtain rfl := hfinish
      cases xs with
      | nil => exact (hright p).symm
      | cons x xs => rfl

end Stream

/-- The same text at another place has the same tokens at other places. -/
theorem Cursor.stream_at {f : Position → Position} {p q : Position}
    (h : ∀ cs, q.advance cs = f (p.advance cs)) (cs : List Char) :
    (Cursor.mk cs q).stream.pending = (Cursor.mk cs p).stream.pending.map (Token.move f) ∧
      (Cursor.mk cs q).stream.finish = f (Cursor.mk cs p).stream.finish := by
  induction hn : cs.length using Nat.strongRecOn generalizing cs p q with
  | ind n ih =>
    obtain hblanks | ⟨blanks, kind, rest, hblanks, hkind, hend, hcs⟩ := (Cursor.mk cs p).rest_cases
    · rw [stream_blanks hblanks, stream_blanks hblanks]
      exact ⟨rfl, h cs⟩
    · simp only at hcs
      subst hcs
      have hlt : rest.length < n := by
        have hpos := List.length_pos_iff.2 (kind.spelling_ne_nil hkind)
        simp only [List.length_append] at hn
        omega
      have hlater : ∀ ds, ((q.advance blanks).advance kind.spelling).advance ds =
          f (((p.advance blanks).advance kind.spelling).advance ds) := by
        intro ds
        rw [← Position.advance_append, ← Position.advance_append, ← Position.advance_append,
          ← Position.advance_append, h]
      obtain ⟨hpending, hfinish⟩ := ih _ hlt hlater rest rfl
      rw [stream_token hblanks hkind hend, stream_token hblanks hkind hend]
      refine ⟨?_, hfinish⟩
      rw [List.map_cons, ← hpending, h blanks]
      rfl

/-- The tokens of a text with another one in front of it. -/
theorem Cursor.stream_shift (front cs : List Char) :
    (Cursor.mk cs .start).stream.Moved (Position.shift front)
      (Cursor.mk cs (.after front)).stream := by
  have hplaces : ∀ ds, (Position.after front).advance ds =
      (Position.start.advance ds).shift front := by
    intro ds
    rw [Position.advance_after, Position.advance_start, Position.after_append]
  obtain ⟨hpending, hfinish⟩ := Cursor.stream_at hplaces cs
  exact Stream.moved_of_map (Position.shift_right front) hpending hfinish

/-- **After a semicolon the tokens of a text go on with those of any other text.** A semicolon is a
token of its own whatever stands behind it, so the text can be cut there. -/
theorem Cursor.stream_append {first : String}
    (hlast : EndsWithSemicolon (Cursor.ofText first).stream.pending) (second : String) :
    (Cursor.ofText (first ++ second)).stream =
      (Cursor.mk second.toList (.after first.toList)).stream.prepend
        (Cursor.ofText first).stream.pending := by
  obtain ⟨used, left, hrest, -, hleft, htail⟩ :=
    (Cursor.ofText first).cut (List.append_nil (Cursor.ofText first).stream.pending).symm
  have hfirst : first.toList = used ++ left := hrest
  -- what is left of the first text after its last token
  have hblanks : ∀ c ∈ left, isBlank c = true := by
    obtain hblanks | ⟨blanks, kind, rest, hblanks, hkind, hend, hcs⟩ :=
      (Cursor.mk left ((Cursor.ofText first).position.advance used)).rest_cases
    · exact hblanks
    · simp only at hcs
      rw [hcs, stream_token hblanks hkind hend] at hleft
      exact absurd (congrArg Stream.pending hleft) (by simp)
  have hends : ∀ t ∈ (Cursor.ofText first).stream.pending.getLast?,
      t.kind.EndsBefore (left ++ second.toList) := by
    obtain ⟨t, ht, hkind⟩ := hlast
    intro u hu
    obtain rfl : t = u := Option.some.inj (ht.symm.trans hu)
    rw [hkind]
    trivial
  have hplace : ((Cursor.ofText first).position.advance used).advance left =
      .after first.toList := by
    rw [← Position.advance_append, ← hfirst]
    exact Position.advance_start first.toList
  have hcursor : Cursor.ofText (first ++ second) =
      ⟨used ++ (left ++ second.toList), (Cursor.ofText first).position⟩ := by
    rw [Cursor.ofText, String.toList_append, hfirst, List.append_assoc]
    rfl
  rw [hcursor, htail _ hends, Cursor.stream_skip_blanks hblanks, hplace]
  rfl

/-! ## Statements -/

namespace Grammar

/-- An expression in a statement that ends with a semicolon is closed by it, whatever follows. -/
theorem Closing.before_any {xs ys : List Token} {next other : Token} {e : Expr}
    (h : Closing ys next) (value : Phrase .equality xs e) (front : List Token)
    (hlast : EndsWithSemicolon (front ++ (xs ++ ys))) : Closing ys other := by
  obtain hsemicolon | ⟨rfl, -⟩ := h
  · exact .inl hsemicolon
  · rw [List.append_nil] at hlast
    exact absurd hlast (value.not_endsWithSemicolon front)

/-- A statement that ends with a semicolon can stand in front of any token.  The grammar relates a
statement to the token behind it.  With a semicolon at its end this token does not matter. -/
theorem Sentence.before_any {xs : List Token} {next : Token} {s : Stmt} (h : Sentence xs next s)
    (hlast : EndsWithSemicolon xs) (other : Token) : Sentence xs other s := by
  cases h with
  | letStmt ht hid hassign value hend =>
    exact .letStmt ht hid hassign value (hend.before_any value [_, _, _] hlast)
  | returnValue ht value hend =>
    exact .returnValue ht value (hend.before_any value [_] hlast)
  | returnNothing ht hys hend =>
    refine .returnNothing ht hys ?_
    obtain rfl | ⟨semicolon, rfl, -⟩ := hys
    · obtain ⟨t, hreturn, hkind⟩ := hlast
      cases hreturn
      exact TokenKind.noConfusion (ht.symm.trans hkind)
    · exact hend
  | expression value hend => exact .expression value (hend.before_any value [] hlast)

end Grammar

namespace Parser

/-- Statements that end with a semicolon, in front of any stream.  The stream may hold anything,
even what cannot be read, because the loop has these statements in hand when it gets there. -/
theorem settles_sentences_append {xs : List Token} {next : Token} {ss : List Stmt}
    (h : Sentences xs next ss) (hnext : next.kind = .eof) (hlast : xs = [] ∨ EndsWithSemicolon xs)
    {s : Stream} {errs : List ParseError} {rest : List Stmt} {u : State}
    (hrest : Settles (fun depth ↦ statements depth false) ⟨s, errs⟩ (.done rest u)) :
    Settles (fun depth ↦ statements depth false) ⟨s.prepend xs, errs⟩ (.done (ss ++ rest) u) := by
  induction ss generalizing xs with
  | nil =>
    cases h
    exact hrest
  | cons stmt ss ih =>
    cases h with
    | cons first more =>
      rename_i xs ys
      have hsemicolon : EndsWithSemicolon (xs ++ ys) := by
        obtain ⟨t, ts, rfl, -⟩ := first.starts
        exact hlast.resolve_left (by simp)
      -- the statements after the first one end with the semicolon, or the first one does
      have hfirst : Settles statement ⟨(s.prepend ys).prepend xs, errs⟩
          (.done stmt ⟨s.prepend ys, errs⟩) := by
        cases ys with
        | nil =>
          rw [List.append_nil] at hsemicolon
          exact settles_sentence (first.before_any hsemicolon _) rfl
            (fun hopen ↦ absurd hsemicolon hopen) errs
        | cons y ys => exact settles_sentence first rfl (fun _ ↦ more.follows (.inl hnext)) errs
      have hmore : ys = [] ∨ EndsWithSemicolon ys := by
        cases ys with
        | nil => exact .inl rfl
        | cons y ys =>
          obtain ⟨t, ht, hkind⟩ := hsemicolon
          refine .inr ⟨t, ?_, hkind⟩
          rwa [List.getLast?_append, List.getLast?_cons, Option.some_or, ← List.getLast?_cons] at ht
      refine .succ ?_
      simp only [statements]
      refine settles_peek (.ite_neg ?_ ?_)
      · rintro (h | ⟨-, h⟩) <;> exact s.head_prepend_ne first.starts (by decide) _ h
      · rw [Stream.prepend_append]
        exact .bind (settles_attempt hfirst) (.bind (ih more hmore) (settles_pure _ _))

end Parser

/-! ## Whole programs -/

/-- With depth enough, reading a stream settles on what is read of it. -/
theorem Stream.settles_parse (s : Stream) : ∃ u,
    Settles (fun depth ↦ Parser.statements depth false) ⟨s, []⟩
      (.done s.parse.program.statements u) ∧ u.errors = s.parse.errors := by
  obtain ⟨statements, u, hread, -, hparse⟩ := s.parse_ends (Nat.le_refl s.depth)
  have hne : Parser.statements s.depth false ⟨s, []⟩ ≠ .exhausted := by
    rw [hread]
    exact fun h ↦ nomatch h
  have hsettles := Settles.of_ne_exhausted (fun depth ↦ Parser.below_statements depth false) hne
  rw [hread] at hsettles
  rw [hparse]
  exact ⟨u, hsettles, rfl⟩

/-- Without the end of the input, the tokens of a text are those of its stream. -/
theorem tokenize_dropLast (text : String) :
    (tokenize text).dropLast = (Cursor.ofText text).stream.pending := by
  rw [tokenize, Stream.tokens, List.dropLast_concat]

/-- **After a text that can be read and ends with a semicolon, every text is read as if it stood
alone, at places further on.** The errors are those of the second text, moved, for the first one
has none. -/
theorem parse_append_of_semicolon {first : String} (herrors : (parse first).errors = [])
    (hlast : EndsWithSemicolon (tokenize first).dropLast) (second : String) :
    parse (first ++ second) =
      ⟨⟨(parse first).program.statements ++
          mapTokensStmts (Token.move (.shift first.toList)) (parse second).program.statements⟩,
        (parse second).errors.map (ParseError.move (.shift first.toList))⟩ := by
  rw [tokenize_dropLast] at hlast
  obtain ⟨xs, finish, htokens, hfinish, hsentences⟩ :=
    derives_of_parseProgram (parseProgram_eq_ok.2 ⟨herrors, rfl⟩)
  obtain ⟨rfl, -⟩ : (Cursor.ofText first).stream.pending = xs ∧
      [Token.eof (Cursor.ofText first).stream.finish] = [finish] := List.append_inj' htokens rfl
  obtain ⟨u, hsettles, hu⟩ :=
    (Cursor.mk second.toList (.after first.toList)).stream.settles_parse
  have hparse := Stream.parse_of_settles
    (Parser.settles_sentences_append hsentences hfinish (.inr hlast) hsettles)
  rw [parse, Cursor.stream_append hlast, hparse, hu,
    Stream.parse_moved (Cursor.stream_shift first.toList second.toList)]
  rfl

end MonkeyLang
