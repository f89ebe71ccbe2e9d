import MonkeyLang.Proofs.Parse.Soundness

/-!
# The first error is found as early as possible

A reader finds its first error in front of a token.  The tokens before that one are the start of
something that it reads without error, and whatever comes after it, the same error is found.

`Parser.Blames C read` says this of a reader: `C xs c e` holds of the tokens `xs` before the first
error `e` and the token `c` at which it is found.  As long as no error is found, a reader only
depends on the tokens that it takes and the one after them.  The lemmas about `Blames` go through a
reader step by step, like those about `Reads`.

Which tokens `xs` can stand before the first error is up to `C`, and so to the reader.

## In front of a token

Some errors are found while the token is the next one, and some after it was taken: a token that
starts no expression is taken first and complained about then.  In both cases the tokens *before*
the error are those without it, and the token itself is `c`.  This is why `fault` speaks of a state
`t` whose head is `c` and does not say that the reader ever was in it, and why there is a lemma for
taking a token that may be the one (`take_or_fail`).

## Any continuation

The first error does not depend on what follows `c`.  What the reader does after it does, and it
may even run out of the depth that was enough for the first stream.  So the error is found on the
other stream with a weaker promise: if the reader runs out, nothing is said.  A reader of a whole
stream has depth enough, and the promise is put right there.

The errors that were there before are part of the statement, as a reader in the middle of a run
does not start without any.
-/

set_option autoImplicit false

namespace MonkeyLang

open Grammar

/-! ## Tokens taken from a stream

Tokens are delivered without end, but two stretches between the same states are equal.  Comparing
them needs the place of the end of the input, which moves on when there are no tokens left. -/

namespace Stream

/-- Tokens that are taken can be taken in two steps. -/
theorem Takes.split {s u : Stream} {xs ys : List Token} (h : s.Takes (xs ++ ys) u) :
    ∃ t, s.Takes xs t ∧ t.Takes ys u := by
  induction xs generalizing s with
  | nil => exact ⟨s, rfl, h⟩
  | cons x xs ih =>
    obtain ⟨t, hxs, hys⟩ := ih h.2
    exact ⟨t, ⟨h.1, hxs⟩, hys⟩

/-- Each token that is taken makes the pending ones fewer or the end of the input later.  The ends
of the input are numbered by their columns, so a number can always be read off a stream, and it
grows. -/
theorem Takes.column_finish {s t : Stream} {xs : List Token} (h : s.Takes xs t) :
    t.finish.column + s.pending.length = s.finish.column + t.pending.length + xs.length := by
  induction xs generalizing s with
  | nil =>
    obtain rfl : t = s := h
    rfl
  | cons x xs ih =>
    have htail := ih h.2
    obtain ⟨pending, finish⟩ := s
    cases pending with
    | nil =>
      simp only [tail, Position.right, List.length_nil, List.length_cons] at htail ⊢
      omega
    | cons y ys =>
      simp only [tail, List.length_cons] at htail ⊢
      omega

/-- The tokens of a stream come in one order only. -/
theorem Takes.eq_of_length {s t u : Stream} {xs ys : List Token} (hxs : s.Takes xs t)
    (hys : s.Takes ys u) (hlength : xs.length = ys.length) : xs = ys := by
  induction xs generalizing s ys with
  | nil => exact (List.length_eq_zero_iff.1 hlength.symm).symm
  | cons x xs ih =>
    obtain ⟨y, ys, rfl⟩ := List.exists_cons_of_length_eq_add_one hlength.symm
    rw [hxs.1, hys.1, ih hxs.2 hys.2 (Nat.succ.inj hlength)]

/-- The tokens between two streams are determined. -/
theorem Takes.unique {s t : Stream} {xs ys : List Token} (hxs : s.Takes xs t)
    (hys : s.Takes ys t) : xs = ys := by
  have hx := hxs.column_finish
  have hy := hys.column_finish
  exact hxs.eq_of_length hys (by omega)

end Stream

namespace Parser

/-! ## Errors stay

The list of errors only grows, so that what is its front in the end was found at some point and not
before. -/

namespace Moves

variable {α : Type} {read : Parser α}

/-- Whatever errors there are in front stay in front. -/
theorem keeps (h : Moves 0 read) {es : List ParseError} {s : State} (hs : es <+: s.errors) :
    (read s).Post (fun _ t ↦ es <+: t.errors) (fun _ t ↦ es <+: t.errors) True :=
  (h s).imp (fun _ _ ht ↦ hs.trans ht.errors) fun _ _ ht ↦ hs.trans ht.1.errors

/-- Errors at the front that were not there before can only be as many as a reader has added.  This
cuts a list of errors in two: what the first of two readers has added, and what the second one has.
-/
theorem found_before (h : Moves 0 read) {es : List ParseError} {s : State}
    (hes : (read s).Post (fun _ t ↦ es <+: t.errors) (fun _ t ↦ es <+: t.errors) False)
    (hlength : es.length ≤ s.errors.length) : es <+: s.errors := by
  have hs := h s
  cases hread : read s with
  | done v t =>
    rw [hread] at hs hes
    exact List.prefix_of_prefix_length_le hes hs.errors hlength
  | stop r t =>
    rw [hread] at hs hes
    exact List.prefix_of_prefix_length_le hes hs.1.errors hlength
  | exhausted =>
    rw [hread] at hes
    exact hes.elim

end Moves

/-! ## The first error of a reader

Clean runs and faults are treated side by side, because the first error of two readers one after
the other is that of the first one, or that of the second one after a clean run of the first. -/

/-- The first error that `read` adds to `errs` in front of `s` is `e`; if the bound on the depth
runs out, then `exhausted` holds.  An error is found by a reader whether it is done or gives up.
Only the first one is asked for, and what comes after it is of no concern. -/
def Finds {α : Type} (exhausted : Prop) (read : Parser α) (s : Stream) (errs : List ParseError)
    (e : ParseError) : Prop :=
  (read ⟨s, errs⟩).Post (fun _ t ↦ errs ++ [e] <+: t.errors) (fun _ t ↦ errs ++ [e] <+: t.errors)
    exhausted

/-- What a reader does without error depends on the tokens it takes and on the next one only, and
so does its first error.  There, `C` holds of the tokens taken, the next one, and the error. -/
structure Blames {α : Type} (C : List Token → Token → ParseError → Prop) (read : Parser α) :
    Prop where
  moves : Moves 0 read
  clean : ∀ s errs v t, read ⟨s, errs⟩ = .done v ⟨t, errs⟩ → ∃ xs, s.Takes xs t ∧
    ∀ s' t', s'.Takes xs t' → t'.head = t.head → read ⟨s', errs⟩ = .done v ⟨t', errs⟩
  fault : ∀ s errs e, Finds False read s errs e → ∃ xs t, s.Takes xs t ∧ C xs t.head e ∧
    ∀ s' t', s'.Takes xs t' → t'.head = t.head → Finds True read s' errs e

namespace Blames

variable {α β : Type} {C : List Token → Token → ParseError → Prop}

/-- The condition on the first error can be replaced by one that follows from it. -/
theorem imp {C' : List Token → Token → ParseError → Prop} {read : Parser α} (h : Blames C read)
    (hC : ∀ xs c e, C xs c e → C' xs c e) : Blames C' read where
  moves := h.moves
  clean := h.clean
  fault s errs e hfinds := by
    obtain ⟨xs, t, htakes, hc, hsame⟩ := h.fault s errs e hfinds
    exact ⟨xs, t, htakes, hC xs _ e hc, hsame⟩

theorem pure (v : α) : Blames C (pure v : Parser α) where
  moves := .pure v
  clean s errs w t hdone := by
    obtain ⟨rfl, rfl⟩ : v = w ∧ s = t := by simpa using hdone
    refine ⟨[], rfl, fun s' t' htakes _ ↦ ?_⟩
    obtain rfl : t' = s' := htakes
    rfl
  fault s errs e hfinds := by
    have hle : errs ++ [e] <+: errs := hfinds
    exact absurd hle.length_le (by simp)

theorem exhaust : Blames C (Action.exhaust : Parser α) where
  moves := .exhaust
  clean _ _ _ _ hdone := absurd hdone (by simp)
  fault _ _ _ hfinds := hfinds.elim

/-- A reader that fails at once has taken no token. -/
theorem fail {e : ParseError} (h : ∀ c, C [] c e) : Blames C (fail e : Parser α) where
  moves := .fail e
  clean _ _ _ _ hdone := absurd hdone (by simp [Parser.fail])
  fault s errs e' hfinds := by
    have hle : errs ++ [e'] <+: errs ++ [e] := hfinds
    obtain rfl : e' = e := by simpa using hle
    exact ⟨[], s, rfl, h _, fun _ _ _ _ ↦ List.prefix_refl _⟩

/-- An error about the token just taken is found in front of that token. -/
theorem take_fail {e : ParseError} (h : ∀ c, C [] c e) :
    Blames C (take >>= fun _ ↦ Parser.fail e : Parser α) where
  moves := Moves.take.relax.bind fun _ ↦ .fail e
  clean _ _ _ _ hdone := absurd hdone (by simp [Action.bind_apply, take, Parser.fail])
  fault s errs e' hfinds := by
    have hle : errs ++ [e'] <+: errs ++ [e] := hfinds
    obtain rfl : e' = e := by simpa using hle
    exact ⟨[], s, rfl, h _, fun _ _ _ _ ↦ List.prefix_refl _⟩

theorem ite {c : Prop} [Decidable c] {read other : Parser α} (h : c → Blames C read)
    (h' : ¬ c → Blames C other) : Blames C (if c then read else other) := by
  split
  · exact h ‹_›
  · exact h' ‹_›

/-- Looking at a token does not take it, and it is still the first one. -/
theorem peek_bind {next : Token → Parser β}
    (h : ∀ t, Blames (fun xs c e ↦ following xs c = t → C xs c e) (next t)) :
    Blames C (peek >>= next) where
  moves := .peek_bind fun t ↦ (h t).moves
  clean s errs v t hdone := by
    obtain ⟨xs, htakes, hsame⟩ := (h s.head).clean s errs v t hdone
    refine ⟨xs, htakes, fun s' t' htakes' hhead ↦ ?_⟩
    have hs : s'.head = s.head := by rw [← htakes'.following, hhead, htakes.following]
    have hdone' := hsame s' t' htakes' hhead
    rw [← hs] at hdone'
    exact hdone'
  fault s errs e hfinds := by
    obtain ⟨xs, t, htakes, hC, hsame⟩ := (h s.head).fault s errs e hfinds
    refine ⟨xs, t, htakes, hC htakes.following, fun s' t' htakes' hhead ↦ ?_⟩
    have hs : s'.head = s.head := by rw [← htakes'.following, hhead, htakes.following]
    have hfinds' := hsame s' t' htakes' hhead
    rw [← hs] at hfinds'
    exact hfinds'

theorem take_bind {next : Token → Parser β}
    (h : ∀ t, Blames (fun xs c e ↦ C (t :: xs) c e) (next t)) : Blames C (take >>= next) where
  moves := Moves.take.relax.bind fun t ↦ (h t).moves
  clean s errs v t hdone := by
    obtain ⟨xs, htakes, hsame⟩ := (h s.head).clean s.tail errs v t hdone
    refine ⟨s.head :: xs, ⟨rfl, htakes⟩, fun s' t' htakes' hhead ↦ ?_⟩
    have hdone' := hsame s'.tail t' htakes'.2 hhead
    rw [htakes'.1] at hdone'
    exact hdone'
  fault s errs e hfinds := by
    obtain ⟨xs, t, htakes, hC, hsame⟩ := (h s.head).fault s.tail errs e hfinds
    refine ⟨s.head :: xs, t, ⟨rfl, htakes⟩, hC, fun s' t' htakes' hhead ↦ ?_⟩
    have hfinds' := hsame s'.tail t' htakes'.2 hhead
    rw [htakes'.1] at hfinds'
    exact hfinds'

/-- After a first reader that found no error, the second one has to say what its first error means
for the tokens of both. -/
theorem bind {D : List Token → Token → α → Prop} {read : Parser α} {next : α → Parser β}
    (h : Blames C read) (hreads : Reads D read)
    (hnext : ∀ v xs,
      Blames (fun ys c e ↦ D xs (following ys c) v → C (xs ++ ys) c e) (next v)) :
    Blames C (read >>= next) where
  moves := h.moves.bind fun v ↦ (hnext v []).moves
  clean s errs w u hdone := by
    obtain ⟨v, ⟨t, errs'⟩, hread, hrest⟩ := Action.bind_eq_done hdone
    have hle : errs <+: errs' := (hreads _ _ _ hread).1
    have hle' : errs' <+: errs := by
      have hmoves := (hnext v []).moves ⟨t, errs'⟩
      rw [hrest] at hmoves
      exact hmoves.errors
    obtain rfl : errs = errs' := hle.eq_of_length_le hle'.length_le
    obtain ⟨xs, htakes, hsame⟩ := h.clean s errs v t hread
    obtain ⟨ys, htakes', hsame'⟩ := (hnext v xs).clean t errs w u hrest
    refine ⟨xs ++ ys, htakes.append htakes', fun s' u' htakes'' hhead ↦ ?_⟩
    obtain ⟨t', hxs, hys⟩ := htakes''.split
    have ht : t'.head = t.head := by rw [← hys.following, hhead, htakes'.following]
    rw [Action.bind_of_done (hsame s' t' hxs ht)]
    exact hsame' t' u' hys hhead
  fault s errs e hfinds := by
    have hmoves := h.moves ⟨s, errs⟩
    -- an error of the first reader is found again, and the second one keeps it
    have hfirst : Finds False read s errs e → ∃ xs t, s.Takes xs t ∧ C xs t.head e ∧
        ∀ s' t', s'.Takes xs t' → t'.head = t.head → Finds True (read >>= next) s' errs e := by
      intro hfinds
      obtain ⟨xs, t, htakes, hC, hsame⟩ := h.fault s errs e hfinds
      refine ⟨xs, t, htakes, hC, fun s' t' htakes' hhead ↦ ?_⟩
      exact (hsame s' t' htakes' hhead).bind fun v u hu ↦ (hnext v []).moves.keeps hu
    rw [Finds, Action.bind_apply] at hfinds
    rw [Finds] at hfirst
    cases hread : read ⟨s, errs⟩ with
    | exhausted =>
      rw [hread] at hfinds
      exact hfinds.elim
    | stop r t =>
      rw [hread] at hfinds hfirst
      exact hfirst hfinds
    | done v t =>
      rw [hread] at hfinds hmoves hfirst
      obtain ⟨t, errs'⟩ := t
      by_cases hclean : errs' = errs
      · subst hclean
        obtain ⟨xs, htakes, hsame⟩ := h.clean s errs' v t hread
        obtain ⟨xs', htakes', hD⟩ := (hreads _ _ _ hread).2 rfl
        obtain rfl : xs' = xs := htakes'.unique htakes
        obtain ⟨ys, u, hys, hC, hsame'⟩ := (hnext v xs').fault t errs' e hfinds
        refine ⟨xs' ++ ys, u, htakes.append hys, hC (by rw [hys.following]; exact hD), ?_⟩
        intro s' u' htakes'' hhead
        obtain ⟨t', hxs, hys'⟩ := htakes''.split
        have ht : t'.head = t.head := by rw [← hys'.following, hhead, hys.following]
        rw [Finds, Action.bind_of_done (hsame s' t' hxs ht)]
        exact hsame' t' u' hys' hhead
      · refine hfirst ((hnext v []).moves.found_before hfinds ?_)
        have hlt := hmoves.errors.length_le.lt_of_ne fun hlength ↦
          hclean (hmoves.errors.eq_of_length hlength).symm
        rw [List.length_append]
        exact hlt

/-- The error about a token that was not expected is found in front of it, with no token taken;
otherwise the token is the first one of what the rest takes. -/
theorem expect_bind {expected : TokenType} {next : Token → Parser β}
    (hfail : ∀ c : Token, c.type ≠ expected →
      C [] c (.unexpectedToken expected c.type c.position))
    (h : ∀ t, t.type = expected → Blames (fun xs c e ↦ C (t :: xs) c e) (next t)) :
    Blames C (expect expected >>= next) := by
  have hsame : (expect expected >>= next) = peek >>= fun t ↦
      if t.type = expected then take >>= fun _ ↦ next t
      else Parser.fail (.unexpectedToken expected t.type t.position) := by
    funext s
    by_cases hs : s.stream.head.type = expected
    · rw [Action.bind_of_done (expect_of_eq hs), Action.bind_apply]
      simp only [peek, Action.look_apply, if_pos hs]
      rfl
    · rw [Action.bind_apply, expect_of_ne hs, Action.bind_apply]
      simp only [peek, Action.look_apply, if_neg hs]
      rfl
  rw [hsame]
  refine peek_bind fun t ↦ ite (fun ht ↦ take_bind fun u ↦ ?_) fun ht ↦ fail fun c hc ↦ ?_
  · refine (h t ht).imp fun xs c e hC hu ↦ ?_
    obtain rfl : u = t := hu
    exact hC
  · obtain rfl : c = t := hc
    exact hfail c ht

/-- The token that is taken may be the one at which the first error is found. -/
theorem take_or_fail {next : Token → Parser β}
    (h : ∀ t, (∃ e, next t = Parser.fail e ∧ C [] t e) ∨
      Blames (fun xs c e ↦ C (t :: xs) c e) (next t)) : Blames C (take >>= next) := by
  have hsame : (take >>= next) = peek >>= fun t ↦ take >>= fun _ ↦ next t := rfl
  rw [hsame]
  refine peek_bind fun t ↦ ?_
  obtain ⟨e, hfail, hC⟩ | hnext := h t
  · rw [hfail]
    refine take_fail fun c hc ↦ ?_
    obtain rfl : c = t := hc
    exact hC
  · refine take_bind fun u ↦ hnext.imp fun xs c e hC hu ↦ ?_
    obtain rfl : u = t := hu
    exact hC

theorem identifier_bind {next : Identifier → Parser β}
    (hfail : ∀ c e, e.position = c.position → C [] c e)
    (h : ∀ (t : Token) name, t.kind = .ident name →
      Blames (fun xs c e ↦ C (t :: xs) c e) (next ⟨t, name⟩)) :
    Blames C (identifier >>= next) := by
  rw [identifier, bind_assoc]
  refine expect_bind (fun c _ ↦ hfail c _ rfl) fun t ht ↦ ?_
  exact h t t.literal (Token.kind_of_type_ident ht)

/-- Skipping a token never fails. -/
theorem skipIf (wanted : TokenType) : Blames C (skipIf wanted) :=
  peek_bind fun _ ↦ ite (fun _ ↦ take_bind fun _ ↦ pure ()) fun _ ↦ pure ()

/-- To catch a failure is to go on after it, and the first error has been found by then. -/
theorem attempt {read : Parser α} (h : Blames C read) : Blames C (attempt read) where
  moves := h.moves.attempt
  clean s errs v t hdone := by
    have hmoves := h.moves ⟨s, errs⟩
    rw [Parser.attempt] at hdone
    cases hread : read ⟨s, errs⟩ with
    | done w u =>
      rw [hread] at hdone
      obtain ⟨rfl, rfl⟩ : some w = v ∧ u = ⟨t, errs⟩ := by simpa using hdone
      obtain ⟨xs, htakes, hsame⟩ := h.clean s errs w t hread
      refine ⟨xs, htakes, fun s' t' htakes' hhead ↦ ?_⟩
      rw [Parser.attempt, hsame s' t' htakes' hhead]
    | stop r u =>
      rw [hread] at hdone hmoves
      obtain ⟨rfl, rfl⟩ : none = v ∧ u = ⟨t, errs⟩ := by simpa using hdone
      exact absurd hmoves.2 (Nat.lt_irrefl _)
    | exhausted =>
      rw [hread] at hdone
      exact absurd hdone (by simp)
  fault s errs e hfinds := by
    have hread : ∀ exhausted s, Finds exhausted (Parser.attempt read) s errs e ↔
        Finds exhausted read s errs e := by
      intro exhausted s
      rw [Finds, Finds, Parser.attempt]
      cases read ⟨s, errs⟩ <;> rfl
    obtain ⟨xs, t, htakes, hC, hsame⟩ := h.fault s errs e ((hread _ _).1 hfinds)
    exact ⟨xs, t, htakes, hC, fun s' t' htakes' hhead ↦ (hread _ _).2 (hsame s' t' htakes' hhead)⟩

end Blames

end Parser

end MonkeyLang
