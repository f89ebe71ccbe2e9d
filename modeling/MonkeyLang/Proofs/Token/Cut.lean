import MonkeyLang.Proofs.Token.Layout

/-!
# Cutting a text between two tokens

A text can be cut after any of its tokens.  What was in front of the cut gives the same tokens in
front of any other text that its last token ends before (`Cursor.cut`).  The tokens after the cut
are those of the new text, from the place of the cut on.

A text for given kinds of tokens is `spaced kinds`.

The theorem is what makes texts as good as lists of tokens when it comes to continuing them.  To
show that a text could have gone on in another way one chooses other tokens, which is easy, and
then has to spell them in place of the rest of the text, which is this theorem: the tokens in front
stay what they were, because the scanner looks ahead by one character only.  Spaces around all new
tokens keep them apart, so that the choice of tokens need not care about neighbours.  The one token
that cannot be followed by anything is a string that is not closed, and it has to be ruled out.
-/

set_option autoImplicit false

namespace MonkeyLang

/-! ## Where a token ends -/

/-- A token ends before a space, unless it is a string that is not closed. -/
theorem TokenKind.endsBefore_space {kind : TokenKind} (h : ∀ text, kind ≠ .unterminated text)
    (cs : List Char) : kind.EndsBefore (' ' :: cs) := by
  cases kind with
  | ident name => exact stopsAt_cons.2 (by decide)
  | keyword k => exact stopsAt_cons.2 (by decide)
  | int digits => exact stopsAt_cons.2 (by decide)
  | symbol s => cases s <;> first | exact stopsAt_cons.2 (by decide) | trivial
  | unterminated text => exact absurd rfl (h text)
  | _ => trivial

/-- Where a token ends depends on the next character only. -/
theorem TokenKind.EndsBefore.of_head {kind : TokenKind} {c : Char} {cs ds : List Char}
    (h : kind.EndsBefore (c :: cs)) : kind.EndsBefore (c :: ds) := by
  have hstops : ∀ {accepts : Char → Bool}, StopsAt accepts (c :: cs) → StopsAt accepts (c :: ds) :=
    fun hcs ↦ stopsAt_cons.2 (stopsAt_cons.1 hcs)
  cases kind with
  | ident name => exact hstops h
  | keyword k => exact hstops h
  | int digits => exact hstops h
  | symbol s => cases s <;> first | exact hstops h | trivial
  | unterminated text => exact absurd h (by simp [TokenKind.EndsBefore])
  | _ => trivial

/-! ## Cutting

The cut is made behind the last token that is kept, in front of the blanks after it.  These go to
the part that is replaced. -/

namespace Cursor

/-- Blanks in front of the cursor are passed over. -/
theorem stream_skip_blanks {blanks : List Char} (hblanks : ∀ c ∈ blanks, isBlank c = true)
    (cs : List Char) (p : Position) :
    (Cursor.mk (blanks ++ cs) p).stream = (Cursor.mk cs (p.advance blanks)).stream := by
  obtain h | ⟨blanks', kind, rest, hblanks', hkind, hend, hcs⟩ := (Cursor.mk cs p).rest_cases
  · have hall : ∀ c ∈ blanks ++ cs, isBlank c = true := List.forall_mem_append.2 ⟨hblanks, h⟩
    rw [stream_blanks hall, stream_blanks h, Position.advance_append]
  · simp only at hcs
    subst hcs
    have hall : ∀ c ∈ blanks ++ blanks', isBlank c = true :=
      List.forall_mem_append.2 ⟨hblanks, hblanks'⟩
    rw [← List.append_assoc, stream_token hall hkind hend, stream_token hblanks' hkind hend,
      Position.advance_append]

/-- **A text can be cut after any of its tokens, and go on with any other text that the last token
ends before.** The places of the tokens before stay what they were, and the later tokens are those
of the other text. -/
theorem cut (k : Cursor) {before later : List Token} (h : k.stream.pending = before ++ later) :
    ∃ used left, k.rest = used ++ left ∧ (used = [] ↔ before = []) ∧
      (Cursor.mk left (k.position.advance used)).stream = ⟨later, k.stream.finish⟩ ∧
        ∀ tail, (∀ t ∈ before.getLast?, t.kind.EndsBefore tail) →
          (Cursor.mk (used ++ tail) k.position).stream =
            let new := (Cursor.mk tail (k.position.advance used)).stream
            ⟨before ++ new.pending, new.finish⟩ := by
  induction before generalizing k with
  | nil =>
    have hlater : k.stream = ⟨later, k.stream.finish⟩ := by rw [← List.nil_append later, ← h]
    exact ⟨[], k.rest, rfl, by simp, hlater, fun _ _ ↦ rfl⟩
  | cons t before ih =>
    obtain ⟨cs, p⟩ := k
    obtain hblanks | ⟨blanks, kind, rest, hblanks, hkind, hend, hcs⟩ := (Cursor.mk cs p).rest_cases
    -- with nothing but blanks ahead there would be no token to cut after
    · rw [stream_blanks hblanks] at h
      exact absurd h (by simp)
    · simp only at hcs
      subst hcs
      rw [stream_token hblanks hkind hend] at h ⊢
      obtain ⟨rfl, hpending⟩ := List.cons.inj h
      obtain ⟨used, left, hrest, hnil, hleft, htail⟩ := ih _ hpending
      simp only at hrest
      refine ⟨blanks ++ (kind.spelling ++ used), left, ?_, ?_, ?_, fun tail hlast ↦ ?_⟩
      · simp [hrest]
      · simp [kind.spelling_ne_nil hkind]
      · simp only [Position.advance_append] at hleft ⊢
        exact hleft
      · -- the first token ends where it did, at the next one or at the cut
        have hend' : kind.EndsBefore (used ++ tail) := by
          cases used with
          | nil =>
            obtain rfl : before = [] := hnil.1 rfl
            exact hlast _ rfl
          | cons c used =>
            rw [hrest] at hend
            exact hend.of_head
        have hlast' : ∀ t ∈ before.getLast?, t.kind.EndsBefore tail := by
          intro u hu
          refine hlast u ?_
          rw [List.getLast?_cons, Option.mem_def.1 hu]
          rfl
        rw [List.append_assoc, List.append_assoc, stream_token hblanks hkind hend',
          htail tail hlast']
        simp only [Position.advance_append, List.cons_append]

end Cursor

/-! ## Tokens with spaces between them -/

/-- The tokens of some kinds, with spaces before, between and after them.  Any tokens but strings
that are not closed can be written like this. -/
def spaced : List TokenKind → List Char
  | [] => [' ']
  | kind :: kinds => ' ' :: (kind.spelling ++ spaced kinds)

/-- A spaced text starts with a space, whatever it goes on with. -/
theorem TokenKind.endsBefore_spaced {kind : TokenKind} (h : ∀ text, kind ≠ .unterminated text)
    (kinds : List TokenKind) : kind.EndsBefore (spaced kinds) := by
  cases kinds with
  | nil => exact endsBefore_space h _
  | cons next kinds => exact endsBefore_space h _

/-- The tokens of a spaced text are those that it was made for. -/
theorem layout_spaced {kinds : List TokenKind} (hkinds : ∀ kind ∈ kinds, kind.WellFormed)
    (hclosed : ∀ kind ∈ kinds, ∀ text, kind ≠ .unterminated text) :
    Layout kinds (spaced kinds) := by
  induction kinds with
  | nil => exact .finish (by simp [spaced, isBlank])
  | cons kind kinds ih =>
    rw [List.forall_mem_cons] at hkinds hclosed
    have hend := TokenKind.endsBefore_spaced hclosed.1 kinds
    have h : Layout (kind :: kinds) ([' '] ++ (kind.spelling ++ spaced kinds)) :=
      .token (by simp [isBlank]) hkinds.1 hend (ih hkinds.2 hclosed.2)
    exact h

end MonkeyLang
