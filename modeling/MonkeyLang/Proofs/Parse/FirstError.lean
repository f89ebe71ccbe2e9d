import Mathlib
import MonkeyLang.Proofs.Parse.Completeness
import MonkeyLang.Proofs.Parse.Defects
import MonkeyLang.Proofs.Parse.Places
import MonkeyLang.Proofs.Parse.Viable
import MonkeyLang.Proofs.Token.Cut

/-!
# The first error of a text

`firstError_earliest` says that the first error of a text is reported at the earliest token that
can be wrong.  What stands before that token also starts a text without errors, and no text that
has the token at the same place after the same tokens is read differently up to there: its first
error is the same.

The readers know this already (`Parser.blames_statements`).  What is left is to compare texts that
have the same tokens at different places, and this is done with the tokens numbered: the readers
never look at places, so the same error is found there.

## From tokens to texts

The tokens before the error can be completed by tokens that are missing.  That is a statement about
tokens.  For a text it has to be shown that the completed tokens are the tokens of some text, and
that this text begins with the tokens of the given one *at the same places*. So the given text is
cut after the last token that counts, and the missing tokens are written behind it
(`exists_text_of_begins`).  This needs that none of the tokens before the error is defective, since
a string without its closing quote would swallow whatever is written behind it.  A defective token
cannot stand before the first error: it is an error itself.

## What earliest means

The token is the first one at which it can be known that something is wrong: before it the text
might still have become a program, and with it no continuation helps.  It need not be the token
that the author of the text got wrong.  A missing bracket is found where something else stands,
which can be much later.

The error that another text has need not be at the same place, since its tokens may be laid out in
another way.  It is the same error about the token of the same number.
-/

set_option autoImplicit false

namespace MonkeyLang

open Grammar

namespace Stream

/-! ## Tokens by their numbers

Two streams that agree on their first tokens agree on everything that a reader does with these.  To
say it, tokens are counted from the start of the stream. -/

/-- The state after some tokens is known from their number. -/
theorem Takes.eq_skip {s t : Stream} {xs : List Token} (h : s.Takes xs t) :
    t = s.skip xs.length := by
  induction xs generalizing s with
  | nil => exact h
  | cons x xs ih => exact ih h.2

/-- Two streams that agree on the tokens taken from the first give the same tokens. -/
theorem Takes.of_agree {s t s' : Stream} {xs : List Token} (h : s.Takes xs t)
    (hagree : ∀ k < xs.length, (s'.skip k).head = (s.skip k).head) :
    s'.Takes xs (s'.skip xs.length) := by
  induction xs generalizing s s' with
  | nil => rfl
  | cons x xs ih =>
    refine ⟨?_, ih h.2 fun k hk ↦ hagree (k + 1) (Nat.succ_lt_succ hk)⟩
    rw [h.1]
    exact (hagree 0 (Nat.zero_lt_succ _)).symm

theorem Takes.getElem? {s t : Stream} {xs : List Token} (h : s.Takes xs t) {k : Nat}
    (hk : k < xs.length) : xs[k]? = some (s.skip k).head := by
  induction xs generalizing s k with
  | nil => exact absurd hk (Nat.not_lt_zero k)
  | cons x xs ih =>
    cases k with
    | zero => rw [List.getElem?_cons_zero, h.1]; rfl
    | succ k => exact ih h.2 (Nat.lt_of_succ_lt_succ hk)

/-- The tokens of a stream up to the first end of the input, by their numbers. -/
theorem getElem?_tokens (s : Stream) {k : Nat} (hk : k ≤ s.pending.length) :
    s.tokens[k]? = some (s.skip k).head := by
  obtain ⟨pending, finish⟩ := s
  induction pending generalizing k with
  | nil =>
    obtain rfl : k = 0 := by simpa using hk
    rfl
  | cons t pending ih =>
    cases k with
    | zero => rfl
    | succ k => exact ih (Nat.le_of_succ_le_succ hk)

/-- The tokens of a stream, split at a number. -/
theorem tokens_eq (s : Stream) {n : Nat} (hn : n ≤ s.pending.length) :
    s.tokens = s.pending.take n ++ (s.skip n).head :: s.tokens.drop (n + 1) := by
  have hget := s.getElem?_tokens hn
  obtain ⟨hlt, heq⟩ := List.getElem?_eq_some_iff.1 hget
  have htake : s.tokens.take n = s.pending.take n := by
    rw [tokens, List.take_append_of_le_length hn]
  rw [← htake, ← heq, ← List.drop_eq_getElem_cons hlt, List.take_append_drop]

/-- Streams with the same kinds of tokens at the front agree on them. -/
theorem agree_of_prefix {s s' : Stream} {n : Nat} (hn : n ≤ s.pending.length)
    (h : (s.pending.take n ++ [(s.skip n).head]).map Token.kind <+: s'.tokens.map Token.kind) :
    ∀ k ≤ n, (s'.skip k).head.kind = (s.skip k).head.kind := by
  have hfront : (s.pending.take n ++ [(s.skip n).head]) ++ s.tokens.drop (n + 1) = s.tokens := by
    rw [List.append_assoc]
    exact (s.tokens_eq hn).symm
  have hlength : (s.pending.take n ++ [(s.skip n).head]).length = n + 1 := by simp [hn]
  obtain ⟨rest, hrest⟩ := h
  intro k hk
  have hkind : (s'.tokens.map Token.kind)[k]? = some (s.skip k).head.kind := by
    rw [← hrest, List.getElem?_append_left (by rw [List.length_map, hlength]; omega),
      List.getElem?_map, ← List.getElem?_append_left (by rw [hlength]; omega), hfront,
      s.getElem?_tokens (by omega)]
    rfl
  have hk' : k < (s'.tokens.map Token.kind).length := (List.getElem?_eq_some_iff.1 hkind).1
  rw [List.length_map, tokens, List.length_append, List.length_singleton] at hk'
  rw [List.getElem?_map, s'.getElem?_tokens (Nat.le_of_lt_succ hk')] at hkind
  exact Option.some.inj hkind

/-- The tokens of a stream with their numbers for places.  Places of a text do not say how many
tokens there are before them, and numbers do. -/
def byNumber (s : Stream) : Stream := numbered 0 (s.pending.map Token.kind)

/-- With numbers for places, a token tells how many there are before it. -/
theorem head_skip_byNumber (s : Stream) (n : Nat) :
    (s.byNumber.skip n).head = ⟨(s.skip n).head.kind, ⟨0, n⟩⟩ := by
  rw [byNumber, head_skip_numbered, Nat.zero_add]

/-! ## The first error of a stream

First for streams whose tokens have their numbers for places, and with that for all others. -/

/-- The first error of a stream, as its reader finds it with any bound that is large enough.  The
bound matters no more once it is the depth of the stream. -/
theorem finds_first {s : Stream} {e : ParseError} {later : List ParseError}
    (h : s.parse.errors = e :: later) {depth : Nat} (hdepth : s.depth ≤ depth) :
    ∃ xs t, s.Takes xs t ∧ e.position = t.head.position ∧
      Begins (fun zs ↦ ∃ ss, Sentences zs (.eof .start) ss) xs ∧
        ∀ s' t', s'.Takes xs t' → t'.head = t.head →
          Parser.Finds True (Parser.statements depth false) s' [] e := by
  obtain ⟨statements, u, hread, -, hparse⟩ := s.parse_ends hdepth
  have hfinds : Parser.Finds False (Parser.statements depth false) s [] e := by
    rw [Parser.Finds, hread]
    show [] ++ [e] <+: u.errors
    rw [hparse] at h
    exact ⟨later, h.symm⟩
  obtain ⟨xs, t, htakes, ⟨hpos, hbegins⟩, hsame⟩ :=
    (Parser.blames_statements depth false).fault s [] e hfinds
  exact ⟨xs, t, htakes, hpos, hbegins _ (.inl rfl), hsame⟩

/-- With tokens for places, the place of the first error is the number of tokens before it. -/
theorem length_of_takes_byNumber {s t : Stream} {xs : List Token} {e : ParseError}
    (htakes : s.byNumber.Takes xs t) (hpos : e.position = t.head.position) :
    e.position = ⟨0, xs.length⟩ := by
  rw [hpos, htakes.eq_skip, head_skip_byNumber]

/-- A stream that agrees up to the token with the first error has the same first error.  What comes
after that token is never seen before the error is found. -/
theorem firstError_of_agree {s s' : Stream} {e : ParseError} {later : List ParseError}
    (h : s.byNumber.parse.errors = e :: later)
    (hagree : ∀ k ≤ e.position.column, (s'.skip k).head.kind = (s.skip k).head.kind) :
    ∃ later', s'.byNumber.parse.errors = e :: later' := by
  have hskip : ∀ k ≤ e.position.column, (s'.byNumber.skip k).head = (s.byNumber.skip k).head := by
    intro k hk
    rw [head_skip_byNumber, head_skip_byNumber, hagree k hk]
  obtain ⟨xs, t, htakes, hpos, -, hsame⟩ :=
    finds_first h (Nat.le_max_left s.byNumber.depth s'.byNumber.depth)
  have hlength : e.position.column = xs.length := by rw [length_of_takes_byNumber htakes hpos]
  rw [hlength] at hskip
  have htakes' := htakes.of_agree fun k hk ↦ hskip k (Nat.le_of_lt hk)
  have hfinds := hsame _ _ htakes' (by rw [htakes.eq_skip]; exact hskip _ (Nat.le_refl _))
  obtain ⟨statements, u, hread, -, hparse⟩ :=
    s'.byNumber.parse_ends (Nat.le_max_right s.byNumber.depth s'.byNumber.depth)
  rw [Parser.Finds, hread] at hfinds
  obtain ⟨later', hlater⟩ := hfinds
  rw [hparse]
  exact ⟨later', hlater.symm⟩

/-- What is before the first error of a stream can be completed.  The completion is a list of
fillers, so that it can be put into a text. -/
theorem begins_before_firstError {s : Stream} {e : ParseError} {later : List ParseError}
    (h : s.byNumber.parse.errors = e :: later) :
    e.position.column ≤ s.pending.length ∧ ∃ xs,
      xs.map Token.kind = (s.pending.take e.position.column).map Token.kind ∧
        Begins (fun zs ↦ ∃ ss, Sentences zs (.eof .start) ss) xs := by
  obtain ⟨xs, t, htakes, hpos, hbegins, -⟩ := finds_first h (Nat.le_refl _)
  have hlength : e.position.column = xs.length := by rw [length_of_takes_byNumber htakes hpos]
  have hkind : ∀ k < xs.length, xs[k]?.map Token.kind = some (s.skip k).head.kind := by
    intro k hk
    rw [htakes.getElem? hk, head_skip_byNumber]
    rfl
  -- no token before the error is an end of the input
  have hle : xs.length ≤ s.pending.length := by
    by_contra hlt
    rw [not_le] at hlt
    obtain ⟨ys, -, ss, hss⟩ := hbegins
    have hend : (s.skip s.pending.length).head.kind = .eof := by
      refine head_of_pending_nil ?_
      rw [pending_skip, List.drop_length]
    have hmem : xs[s.pending.length] ∈ xs ++ ys :=
      List.mem_append_left ys (List.getElem_mem hlt)
    refine hss.ne_eof _ hmem ?_
    have hxs := hkind s.pending.length hlt
    rw [List.getElem?_eq_getElem hlt, hend] at hxs
    exact Option.some.inj hxs
  rw [hlength]
  refine ⟨hle, xs, List.ext_getElem? fun k ↦ ?_, hbegins⟩
  rw [List.getElem?_map, List.getElem?_map]
  by_cases hk : k < xs.length
  · rw [hkind k hk, List.getElem?_take_of_lt hk]
    have htokens := s.getElem?_tokens (k := k) (by omega)
    rw [tokens, List.getElem?_append_left (by omega)] at htokens
    rw [htokens]
    rfl
  · rw [List.getElem?_eq_none (by omega), List.getElem?_take_eq_none (by omega)]

/-! ## Streams without errors -/

/-- Sentences in front of an end of the input are read without error. -/
theorem parse_of_sentences {zs : List Token} {p : Position} {ss : List Stmt}
    (h : Sentences zs (.eof p) ss) : (Stream.mk zs p).parse = ⟨⟨ss⟩, []⟩ := by
  have hsettles := Parser.settles_sentences h (s := ⟨[], p⟩) rfl false (.inl rfl) []
  rw [prepend, List.append_nil] at hsettles
  exact parse_of_settles hsettles

/-- So none of their tokens is defective. -/
theorem defect?_eq_none_of_sentences {zs : List Token} {p : Position} {ss : List Stmt}
    (h : Sentences zs (.eof p) ss) : ∀ t ∈ zs, t.defect? = none := by
  have hdefects := Stream.lexicalErrors_parse ⟨zs, p⟩ h.ne_eof
  rw [parse_of_sentences h] at hdefects
  exact List.filterMap_eq_nil_iff.1 hdefects.symm

/-- Whether there are errors depends on the kinds of the tokens only. -/
theorem errors_eq_nil_of_kinds {s t : Stream} (hs : s.parse.errors = [])
    (hkinds : t.pending.map Token.kind = s.pending.map Token.kind) : t.parse.errors = [] := by
  rw [parse_eq_move_numbered] at hs ⊢
  rw [hkinds]
  have hnone : (numbered 0 (s.pending.map Token.kind)).parse.errors = [] := List.map_eq_nil_iff.1 hs
  rw [Parsed.move, hnone]
  rfl

end Stream

/-! ## Texts -/

/-- The same error at the place `p`. -/
def ParseError.moveTo (p : Position) (e : ParseError) : ParseError := e.move fun _ ↦ p

/-- An error that is moved in two ways is the same error at two places. -/
theorem ParseError.move_eq_moveTo (f g : Position → Position) (e : ParseError) :
    e.move f = (e.move g).moveTo (f e.position) := by
  cases e <;> rfl

/-- A text can be cut after any of its tokens and completed with other ones, without a change to
the tokens before the cut. -/
theorem exists_text_of_begins {text : String} {n : Nat} {xs : List Token}
    (hxs : xs.map Token.kind = ((Cursor.ofText text).stream.pending.take n).map Token.kind)
    (hbegins : Begins (fun zs ↦ ∃ ss, Sentences zs (.eof .start) ss) xs) :
    ∃ other, (parse other).errors = [] ∧
      (Cursor.ofText text).stream.pending.take n <+: tokenize other := by
  obtain ⟨ys, hys, ss, hss⟩ := hbegins
  -- strings that are not closed are reported, so there is none among these tokens
  have hclosed : ∀ t ∈ xs ++ ys, ∀ content, t.kind ≠ .unterminated content := by
    intro t ht content hkind
    have hdefect := Stream.defect?_eq_none_of_sentences hss t ht
    rw [Token.defect?, hkind] at hdefect
    exact absurd hdefect (by simp)
  obtain ⟨used, left, -, -, -, htail⟩ :=
    (Cursor.ofText text).cut (List.take_append_drop n (Cursor.ofText text).stream.pending).symm
  have hlast : ∀ t ∈ ((Cursor.ofText text).stream.pending.take n).getLast?,
      t.kind.EndsBefore (spaced (ys.map Token.kind)) := by
    intro t ht
    have hmem : t.kind ∈ xs.map Token.kind := by
      rw [hxs]
      exact List.mem_map_of_mem (List.mem_of_getLast? ht)
    obtain ⟨u, hu, hkind⟩ := List.mem_map.1 hmem
    rw [← hkind]
    exact TokenKind.endsBefore_spaced (hclosed u (List.mem_append_left ys hu)) _
  have hlayout : Layout (ys.map Token.kind) (spaced (ys.map Token.kind)) := by
    refine layout_spaced ?_ ?_
    · intro kind hkind
      obtain ⟨y, hy, rfl⟩ := List.mem_map.1 hkind
      exact wellFormed_of_isFiller (List.all_eq_true.1 hys y hy)
    · intro kind hkind
      obtain ⟨y, hy, rfl⟩ := List.mem_map.1 hkind
      exact hclosed y (List.mem_append_right xs hy)
  have hstream := htail _ hlast
  have hofText : Cursor.ofText (String.ofList (used ++ spaced (ys.map Token.kind))) =
      ⟨used ++ spaced (ys.map Token.kind), (Cursor.ofText text).position⟩ := by
    rw [Cursor.ofText, String.toList_ofList]
    rfl
  refine ⟨String.ofList (used ++ spaced (ys.map Token.kind)), ?_, ?_⟩
  · rw [parse, hofText, hstream]
    refine Stream.errors_eq_nil_of_kinds (s := ⟨xs ++ ys, .start⟩) ?_ ?_
    · rw [Stream.parse_of_sentences hss]
    · show List.map Token.kind (_ ++ _) = _
      rw [List.map_append, Cursor.kinds_of_layout hlayout, ← hxs, List.map_append]
  · rw [tokenize, hofText, hstream, Stream.tokens, List.append_assoc]
    exact List.prefix_append _ _

/-- **The first error is reported at the earliest token that can be wrong.**  It is at the place of
a token `t`.  Some text starts with the same tokens before `t` and has no errors.  Every text that
starts with tokens of the same kinds up to and including `t` has the same first error, at some
place. -/
theorem firstError_earliest {text : String} {e : ParseError} {later : List ParseError}
    (h : (parse text).errors = e :: later) :
    ∃ before t after, tokenize text = before ++ t :: after ∧ e.position = t.position ∧
      (∃ other, (parse other).errors = [] ∧ before <+: tokenize other) ∧
        ∀ other, (before ++ [t]).map Token.kind <+: (tokenize other).map Token.kind →
          ∃ p later', (parse other).errors = e.moveTo p :: later' := by
  rw [parse, Stream.parse_eq_move_numbered] at h
  obtain ⟨e₀, later₀, hnumbered, rfl, -⟩ := List.map_eq_cons_iff.1 h
  obtain ⟨hle, xs, hxs, hbegins⟩ := Stream.begins_before_firstError hnumbered
  refine ⟨_, _, _, (Cursor.ofText text).stream.tokens_eq hle, ?_, ?_, fun other hother ↦ ?_⟩
  · exact e₀.position_move _
  · exact exists_text_of_begins hxs hbegins
  · have hagree := Stream.agree_of_prefix hle hother
    obtain ⟨later', hlater⟩ := Stream.firstError_of_agree hnumbered hagree
    rw [Stream.byNumber] at hlater
    rw [parse, Stream.parse_eq_move_numbered, Parsed.move, hlater, List.map_cons,
      ParseError.move_eq_moveTo _ (Cursor.ofText text).stream.place]
    exact ⟨_, _, rfl⟩

/-- An operand is missing inside two brackets: the error is at the semicolon that stands in its
place. -/
theorem firstError_earliest_operand :
    (parse "let x = [1, (2 + ;").errors = [.noExpression (.symbol .semicolon) ⟨1, 18⟩] ∧
      ∃ before t after, tokenize "let x = [1, (2 + ;" = before ++ t :: after ∧
        (⟨1, 18⟩ : Position) = t.position ∧
        (∃ other, (parse other).errors = [] ∧ before <+: tokenize other) ∧
          ∀ other, (before ++ [t]).map Token.kind <+: (tokenize other).map Token.kind →
            ∃ p later, (parse other).errors = .noExpression (.symbol .semicolon) p :: later := by
  have herrors : (parse "let x = [1, (2 + ;").errors =
      [.noExpression (.symbol .semicolon) ⟨1, 18⟩] := by cbv
  exact ⟨herrors, firstError_earliest herrors⟩

end MonkeyLang
