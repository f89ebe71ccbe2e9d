import Mathlib
import MonkeyLang.Proofs.Parse.FirstError
import MonkeyLang.Proofs.Program.RoundTrip
import MonkeyLang.Proofs.Session.Fresh
import MonkeyLang.Proofs.Token.Order

/-!
# What a text means

The meaning of a text depends on the kinds of its tokens only.  Texts that differ in their layout
are read as the same program, have the same errors at the same tokens, and run in the same way:
`layout_irrelevant`.

It does not depend on how the program is written either.  The text that a program is rendered to
runs as the program does, although it may have other parentheses and other numerals:
`evalFresh_parse_render`.

## What layout is

Blanks, tabs and line breaks between tokens, and nothing else; there are no comments.  Whether two
tokens need a blank between them is a question for the lexer, and it is settled before this file
starts: two texts differ in layout only if their tokens are of the same kinds one by one.  Inside
of strings blanks are part of the token.

## Errors

Errors of one text and errors of the other say the same, in the same order, and each error stands
at the token that has the same number in its text.  Their places differ with the layout.  An error
about the end of the input may stand further right than the text goes, where there is no token with
a number.  Such errors correspond to each other as well, and neither of them stands at a numbered
token.

Errors of a run name no places, so they are equal.
-/

set_option autoImplicit false

namespace MonkeyLang

/-! ## Rendering

A program and the program that its text is read as differ in their tokens only, and tokens do not
matter for a run. -/

/-- **Rendering keeps the meaning of a program.**  Take the program that is kept of a text, whatever
was wrong with the text, and the program that is read from its rendering.  They come to the same
end, each in a new scope of some machine. -/
theorem evalFresh_parse_render (text : String) (m m' : Machine) :
    let p := (parse text).program
    SameOutcome Eq (fun depth ↦ p.evalFresh depth) m
      (fun depth ↦ (parse p.render).program.evalFresh depth) m' := by
  intro p
  have hp : p.WellFormed := wellFormed_parse text
  -- the program that comes back has the shortest numerals in its tokens
  have hcanonical : SameOutcome Eq (fun depth ↦ p.evalFresh depth) m
      (fun depth ↦ p.canonical.evalFresh depth) m := sameOutcome_mapTokens p Token.canonical m m
  exact hcanonical.trans (sameOutcome_of_same hp.parse_render.2 m' m).symm

/-! ## Layout

Both texts are read as images of one stream, whose tokens have their numbers for places.  What is
the same about them is what is known of that stream. -/

/-- The token number `k` of a text, counted from zero, stands at the place `p`.  The end of the
input is counted as a token, so that errors about it have a number too. -/
def StandsAt (text : String) (k : Nat) (p : Position) : Prop :=
  ∃ t, (tokenize text)[k]? = some t ∧ t.position = p

/-- The error `e` of the text `a` and the error `e'` of the text `b` say the same of the same
token.  The places of two texts cannot be compared directly, and the numbers of their tokens can.
-/
structure ParseError.Corresponds (a b : String) (e e' : ParseError) : Prop where
  same : ∃ p, e' = e.moveTo p
  token : ∀ k, StandsAt a k e.position ↔ StandsAt b k e'.position

/-- Runs of the texts `a` and `b` failed for the same reason. -/
def RunError.Corresponds (a b : String) : RunError → RunError → Prop
  | .parse errors, .parse errors' => List.Forall₂ (ParseError.Corresponds a b) errors errors'
  | .eval e, .eval e' => e = e'
  | _, _ => False

/-- A token is found at its own place only. -/
theorem standsAt_iff (text : String) (k n : Nat) :
    StandsAt text k ((Cursor.ofText text).stream.skip n).head.position ↔
      k = n ∧ n ≤ (Cursor.ofText text).stream.pending.length := by
  have hincreasing := (Cursor.ofText text).increasing_stream.1
  constructor
  · rintro ⟨t, ht, hposition⟩
    have hk : k ≤ (Cursor.ofText text).stream.pending.length := by
      obtain ⟨hlt, -⟩ := List.getElem?_eq_some_iff.1 ht
      rw [tokenize, Stream.tokens, List.length_append, List.length_singleton] at hlt
      exact Nat.le_of_lt_succ hlt
    rw [tokenize, Stream.getElem?_tokens _ hk] at ht
    obtain rfl : ((Cursor.ofText text).stream.skip k).head = t := Option.some.inj ht
    obtain rfl : k = n := hincreasing.eq_of_position_eq hposition
    exact ⟨rfl, hk⟩
  · rintro ⟨rfl, hk⟩
    exact ⟨_, Stream.getElem?_tokens _ hk, rfl⟩

/-- Texts with the same tokens up to places have the same kinds of tokens. -/
theorem pending_kinds_of_sameTokens {a b : String}
    (h : sameTokens (tokenize a) (tokenize b) = true) :
    (Cursor.ofText b).stream.pending.map Token.kind =
      (Cursor.ofText a).stream.pending.map Token.kind := by
  have hkinds := (sameTokens_iff _ _).1 h
  simp only [tokenize, Stream.tokens, List.map_append, List.map_cons, List.map_nil] at hkinds
  exact (List.append_cancel_right hkinds).symm

/-- Both texts are read as the images of the same numbered tokens.  So whatever is known of one of
them is known of the other, with other places. -/
theorem parse_eq_of_sameTokens {a b : String} (h : sameTokens (tokenize a) (tokenize b) = true) :
    ∃ parsed : Parsed, parse a = parsed.move (Cursor.ofText a).stream.place ∧
      parse b = parsed.move (Cursor.ofText b).stream.place := by
  refine ⟨_, Stream.parse_eq_move_numbered _, ?_⟩
  rw [parse, Stream.parse_eq_move_numbered, pending_kinds_of_sameTokens h]

/-- The same program at other places is the same program. -/
theorem Program.same_move (f g : Position → Position) (p : Program) :
    (p.mapTokens (Token.move f)).same (p.mapTokens (Token.move g)) = true := by
  have hforget : ∀ f : Position → Position, Token.forget ∘ Token.move f = Token.forget :=
    fun f ↦ rfl
  rw [same_iff, mapTokens_mapTokens, mapTokens_mapTokens, hforget, hforget]

/-- The errors of the two texts correspond one by one. -/
theorem corresponds_errors {a b : String} (h : sameTokens (tokenize a) (tokenize b) = true) :
    List.Forall₂ (ParseError.Corresponds a b) (parse a).errors (parse b).errors := by
  have hlength : (Cursor.ofText b).stream.pending.length =
      (Cursor.ofText a).stream.pending.length := by
    simpa using congrArg List.length (pending_kinds_of_sameTokens h)
  obtain ⟨parsed, ha, hb⟩ := parse_eq_of_sameTokens h
  rw [ha, hb, Parsed.move, Parsed.move, List.forall₂_map_left_iff, List.forall₂_map_right_iff,
    List.forall₂_same]
  intro e _
  refine ⟨⟨_, e.move_eq_moveTo _ _⟩, fun k ↦ ?_⟩
  rw [e.position_move, e.position_move, Stream.place, Stream.place, standsAt_iff, standsAt_iff,
    hlength]

/-! ## Runs of texts -/

theorem settles_runFresh_of_ok {text : String} {p : Program} (h : parseProgram text = .ok p)
    {m : Machine} {o : Outcome EvalError Machine Value}
    (ho : Settles (fun depth ↦ p.evalFresh depth) m o) :
    Settles (fun depth ↦ runFresh depth text) m (o.mapReason .eval) := by
  obtain ⟨least, hleast⟩ := ho
  exact ⟨least, fun depth hle ↦ (run_of_ok h ..).trans (congrArg _ (hleast depth hle))⟩

theorem parseProgram_eq_error {text : String} (h : (parse text).errors ≠ []) :
    parseProgram text = .error (parse text).errors := by
  rw [parseProgram, if_neg (by simpa using h)]

theorem settles_runFresh_of_error {text : String} {errors : List ParseError}
    (h : parseProgram text = .error errors) (m : Machine) :
    Settles (fun depth ↦ runFresh depth text) m (.stop (.parse errors) (m.newScope none).2) :=
  .of_forall fun depth ↦ run_of_error h depth _ _

/-- **Layout is irrelevant.**  Two texts have the same tokens up to places.  Then they are read as
the same program up to places, their errors correspond one by one, and they come to the same end,
each in a new scope of some machine. -/
theorem layout_irrelevant {a b : String} (h : sameTokens (tokenize a) (tokenize b) = true) :
    (parse a).program.same (parse b).program = true ∧
      List.Forall₂ (ParseError.Corresponds a b) (parse a).errors (parse b).errors ∧
        ∀ m m', SameOutcome (RunError.Corresponds a b) (fun depth ↦ runFresh depth a) m
          (fun depth ↦ runFresh depth b) m' := by
  obtain ⟨parsed, ha, hb⟩ := parse_eq_of_sameTokens h
  have hsame : (parse a).program.same (parse b).program = true := by
    rw [ha, hb]
    exact Program.same_move _ _ _
  have herrors := corresponds_errors h
  refine ⟨hsame, herrors, fun m m' ↦ ?_⟩
  by_cases hnone : (parse a).errors = []
  · rw [hnone, List.forall₂_nil_left_iff] at herrors
    obtain ⟨o, o', ho, ho', hlike⟩ := sameOutcome_of_same hsame m m'
    refine ⟨_, _, settles_runFresh_of_ok (parseProgram_eq_ok.2 ⟨hnone, rfl⟩) ho,
      settles_runFresh_of_ok (parseProgram_eq_ok.2 ⟨herrors, rfl⟩) ho', ?_⟩
    exact Outcome.Together.mapReason hlike
  · have hsome' : (parse b).errors ≠ [] := by
      intro hnone'
      rw [hnone', List.forall₂_nil_right_iff] at herrors
      exact hnone herrors
    exact ⟨_, _, settles_runFresh_of_error (parseProgram_eq_error hnone) m,
      settles_runFresh_of_error (parseProgram_eq_error hsome') m', herrors⟩

/-- An assignment without its sign, on one line and on three: the error is at the number, which is
the third token of both texts. -/
theorem layout_irrelevant_lines :
    sameTokens (tokenize "let x 5") (tokenize "let\nx\n 5") = true ∧
      (parse "let x 5").errors = [.unexpectedToken (.symbol .assign) .int ⟨1, 7⟩] ∧
      (parse "let\nx\n 5").errors = [.unexpectedToken (.symbol .assign) .int ⟨3, 2⟩] ∧
      (parse "let x 5").program.same (parse "let\nx\n 5").program = true ∧
      List.Forall₂ (ParseError.Corresponds "let x 5" "let\nx\n 5")
        [.unexpectedToken (.symbol .assign) .int ⟨1, 7⟩]
        [.unexpectedToken (.symbol .assign) .int ⟨3, 2⟩] ∧
      ∀ m m', SameOutcome (RunError.Corresponds "let x 5" "let\nx\n 5")
        (fun depth ↦ runFresh depth "let x 5") m (fun depth ↦ runFresh depth "let\nx\n 5") m' := by
  have htokens : sameTokens (tokenize "let x 5") (tokenize "let\nx\n 5") = true := by cbv
  have ha : (parse "let x 5").errors = [.unexpectedToken (.symbol .assign) .int ⟨1, 7⟩] := by cbv
  have hb : (parse "let\nx\n 5").errors = [.unexpectedToken (.symbol .assign) .int ⟨3, 2⟩] := by
    cbv
  obtain ⟨hsame, herrors, hruns⟩ := layout_irrelevant htokens
  rw [ha, hb] at herrors
  exact ⟨htokens, ha, hb, hsame, herrors, hruns⟩

end MonkeyLang
