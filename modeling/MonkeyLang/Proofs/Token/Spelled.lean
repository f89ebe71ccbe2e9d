import MonkeyLang.Proofs.Token.Cut

/-!
# Spelling tokens out

The shortest way to write any tokens down is to spell them one after the other, with single spaces
between them: `spelledOut`.  Cutting such a text into tokens gives back the tokens that it was made
from, be they the tokens of a program or not.  Neighbours do not run together, because no token
goes on with a space; the one exception is a string that is not closed, after which nothing can
stand.

`Spellable` says which lists of kinds this holds of, and these are exactly the lists that a text
can have: `spellable_iff_tokenize`.

The condition has two clauses and cannot do with less.  A token whose text is not well formed, such
as an identifier with a digit in it, is cut in two or taken for another one.  A string that is not
closed swallows all that follows.  Everything else is a list of tokens of some text, and so every
property of texts that depends on kinds alone can be stated and tried out on lists.

Nothing is said about places.  Those of the new text are other ones, since blanks and line feeds
are gone.
-/

set_option autoImplicit false

namespace MonkeyLang

/-- Tokens of these kinds can stand in this order in a text: each is well formed, and only the last
one may be a string that is not closed.  A string that is not closed takes up the rest of its text,
and nothing can stand behind it. -/
structure Spellable (kinds : List TokenKind) : Prop where
  wellFormed : ∀ kind ∈ kinds, kind.WellFormed
  closed : ∀ kind ∈ kinds.dropLast, ∀ text, kind ≠ .unterminated text

/-- The spellings of the kinds, with one space between each two neighbours.  One space is enough
between any two tokens, and a space is never part of one outside of a string. -/
def spelledOut (kinds : List TokenKind) : String :=
  String.ofList (List.intercalate [' '] (kinds.map TokenKind.spelling))

/-! ## Every text has spellable tokens -/

/-- No token lies in an empty text, since no spelling is empty. -/
theorem Layout.eq_nil {kinds : List TokenKind} (h : Layout kinds []) : kinds = [] := by
  generalize htext : ([] : List Char) = text at h
  cases h with
  | finish => rfl
  | token _ hkind _ _ =>
    have hspelling := (List.append_eq_nil_iff.1 (List.append_eq_nil_iff.1 htext.symm).2).1
    exact absurd hspelling (TokenKind.spelling_ne_nil hkind)

/-- Nothing lies in a text after a string that is not closed. -/
theorem Layout.spellable {kinds : List TokenKind} {text : List Char} (h : Layout kinds text) :
    Spellable kinds := by
  refine ⟨h.wellFormed, ?_⟩
  induction h with
  | finish => simp
  | @token blanks rest kind kinds _ _ hend later ih =>
    cases kinds with
    | nil => simp
    | cons next kinds =>
      rw [List.dropLast_cons_of_ne_nil (List.cons_ne_nil next kinds), List.forall_mem_cons]
      refine ⟨?_, ih⟩
      rintro text rfl
      obtain rfl : rest = [] := hend
      cases later.eq_nil

/-! ## Spellable tokens have a text

By induction on the kinds.  A token with another one after it ends before the space, and the last
one ends before nothing. -/

theorem TokenKind.endsBefore_nil (kind : TokenKind) : kind.EndsBefore [] := by
  cases kind with
  | ident name => exact stopsAt_nil _
  | keyword k => exact stopsAt_nil _
  | int digits => exact stopsAt_nil _
  | symbol s => cases s <;> first | exact stopsAt_nil _ | trivial
  | unterminated text => rfl
  | _ => trivial

theorem Spellable.tail {kind : TokenKind} {kinds : List TokenKind} (h : Spellable (kind :: kinds)) :
    Spellable kinds := by
  refine ⟨(List.forall_mem_cons.1 h.wellFormed).2, fun other hother ↦ h.closed other ?_⟩
  cases kinds with
  | nil => cases hother
  | cons next kinds => exact List.mem_cons_of_mem _ hother

/-- Spellable kinds lie in their spellings with spaces between, whatever blanks stand in front. -/
theorem Spellable.layout {kinds : List TokenKind} (h : Spellable kinds) (blanks : List Char)
    (hblanks : ∀ c ∈ blanks, isBlank c = true) :
    Layout kinds (blanks ++ List.intercalate [' '] (kinds.map TokenKind.spelling)) := by
  induction kinds generalizing blanks with
  | nil =>
    rw [List.map_nil, List.intercalate_nil, List.append_nil]
    exact .finish hblanks
  | cons kind kinds ih =>
    have hkind : kind.WellFormed := h.wellFormed kind List.mem_cons_self
    cases kinds with
    | nil =>
      rw [List.map_singleton, List.intercalate_singleton, ← List.append_nil kind.spelling]
      exact .token hblanks hkind kind.endsBefore_nil (.finish (by simp))
    | cons next kinds =>
      -- the space in front of the next token is what the first one ends before
      have hclosed : ∀ text, kind ≠ .unterminated text := h.closed kind List.mem_cons_self
      have hlater := ih h.tail [' '] (by simp [isBlank])
      rw [List.map_cons, List.map_cons, List.intercalate_cons_cons, List.append_assoc]
      exact .token hblanks hkind (TokenKind.endsBefore_space hclosed _) hlater

/-! ## Reading the spellings -/

/-- The end of the input is there always and once, and what is before it has kinds that lie in the
text. -/
theorem map_kind_tokenize (text : String) : (tokenize text).map Token.kind =
    (Cursor.ofText text).stream.pending.map Token.kind ++ [.eof] := by
  rw [tokenize, Stream.tokens, List.map_append]
  rfl

/-- **Tokens are spelled out and read back.**  Cutting the spellings of spellable tokens, with
single spaces between them, gives these tokens and one end of the input.  All texts have spellable
tokens, so that the lists of kinds for which this holds are those that some text has. -/
theorem spellable_iff_tokenize :
    (∀ kinds, Spellable kinds ↔
      (tokenize (spelledOut kinds)).map Token.kind = kinds ++ [.eof]) ∧
    ∀ text, ∃ kinds, Spellable kinds ∧ (tokenize text).map Token.kind = kinds ++ [.eof] := by
  have htexts : ∀ text, Spellable ((Cursor.ofText text).stream.pending.map Token.kind) :=
    fun text ↦ (Cursor.ofText text).layout_stream.spellable
  refine ⟨fun kinds ↦ ⟨fun h ↦ ?_, fun h ↦ ?_⟩, fun text ↦ ⟨_, htexts text, map_kind_tokenize text⟩⟩
  · have hlayout : Layout kinds (spelledOut kinds).toList := by
      rw [spelledOut, String.toList_ofList]
      exact h.layout [] (by simp)
    rw [map_kind_tokenize, (layout_iff kinds _).1 hlayout]
  · rw [map_kind_tokenize] at h
    rw [← List.append_cancel_right h]
    exact htexts _

end MonkeyLang
