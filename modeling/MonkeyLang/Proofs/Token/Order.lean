import MonkeyLang.Proofs.Parse.Progress
import MonkeyLang.Proofs.Token.Layout

/-!
# Tokens stand in the order of their places

Every token of a text stands further on than the tokens before it, and the ends of the input that
are delivered after the last token go on in the same way: `Cursor.increasing_stream`.  So a place
belongs to one token at most (`Stream.Increasing.eq_of_position_eq`).

This is why an error can be identified by its place, and a function literal by its place in its
program.  The order is lexicographic, lines before columns, which is the order of the characters in
the text.  The tokens are compared by their number in the endless stream and not by their place in
the list before the end, so that the ends of the input need no special case: each of them stands
one column behind the one before.
-/

set_option autoImplicit false

namespace MonkeyLang

/-! ## The order of places -/

namespace Position

/-- The place `p` stands before `q`: on an earlier line, or further left on the same one.  The
order in which one reads. -/
def Before (p q : Position) : Prop := p.line < q.line ∨ p.line = q.line ∧ p.column < q.column

theorem before_irrefl (p : Position) : ¬ p.Before p := by
  rintro (h | ⟨-, h⟩)
  · exact Nat.lt_irrefl _ h
  · exact Nat.lt_irrefl _ h

theorem Before.trans {p q r : Position} (h : p.Before q) (h' : q.Before r) : p.Before r := by
  simp only [Before] at h h' ⊢
  omega

theorem before_right (p : Position) : p.Before p.right := .inr ⟨rfl, Nat.lt_succ_self _⟩

/-- Reading a character moves the place on, also when it is a line feed, which starts a new line at
its first column. -/
theorem before_step (p : Position) (c : Char) : p.Before (p.step c) := by
  rw [step]
  split
  · exact .inl (Nat.lt_succ_self _)
  · exact p.before_right

/-- Any number of characters but none moves the place on. -/
theorem before_advance (p : Position) {cs : List Char} (h : cs ≠ []) : p.Before (p.advance cs) := by
  induction cs generalizing p with
  | nil => exact absurd rfl h
  | cons c cs ih =>
    rw [advance_cons]
    by_cases hcs : cs = []
    · rw [hcs]
      exact p.before_step c
    · exact (p.before_step c).trans (ih (p.step c) hcs)

theorem Before.advance {p q : Position} (h : p.Before q) (cs : List Char) :
    p.Before (q.advance cs) := by
  by_cases hcs : cs = []
  · rw [hcs]
    exact h
  · exact h.trans (q.before_advance hcs)

end Position

/-! ## Streams -/

namespace Stream

/-- Each token of the stream stands before the next one.  It is enough to compare neighbours; the
rest is transitivity. -/
def Increasing (s : Stream) : Prop :=
  ∀ n, (s.skip n).head.position.Before (s.skip (n + 1)).head.position

theorem increasing_finish (p : Position) : (Stream.mk [] p).Increasing := by
  intro n
  induction n generalizing p with
  | zero => exact p.before_right
  | succ n ih => exact ih p.right

/-- A token in front has to stand before the first one only. -/
theorem Increasing.cons {t : Token} {s : Stream} (h : s.Increasing)
    (ht : t.position.Before s.head.position) :
    (Stream.mk (t :: s.pending) s.finish).Increasing := by
  intro n
  cases n with
  | zero => exact ht
  | succ n => exact h n

/-- An earlier token stands before a later one, however many are between. -/
theorem Increasing.before_of_lt {s : Stream} (h : s.Increasing) {i j : Nat} (hij : i < j) :
    (s.skip i).head.position.Before (s.skip j).head.position := by
  induction hij with
  | refl => exact h i
  | step _ ih => exact ih.trans (h _)

/-- A place belongs to one token at most. -/
theorem Increasing.eq_of_position_eq {s : Stream} (h : s.Increasing) {i j : Nat}
    (hij : (s.skip i).head.position = (s.skip j).head.position) : i = j := by
  rcases Nat.lt_trichotomy i j with hlt | heq | hgt
  · have hbefore := h.before_of_lt hlt
    rw [hij] at hbefore
    exact absurd hbefore (Position.before_irrefl _)
  · exact heq
  · have hbefore := h.before_of_lt hgt
    rw [hij] at hbefore
    exact absurd hbefore (Position.before_irrefl _)

end Stream

/-- **The tokens of a text stand in the order of their places**, and none stands in front of the
cursor. -/
theorem Cursor.increasing_stream (k : Cursor) :
    k.stream.Increasing ∧
      ∀ p : Position, p.Before k.position → p.Before k.stream.head.position := by
  obtain ⟨cs, p⟩ := k
  -- the text shrinks with every token
  induction hn : cs.length using Nat.strongRecOn generalizing cs p with
  | ind n ih =>
    obtain hblanks | ⟨blanks, kind, rest, hblanks, hkind, hend, hcs⟩ := (Cursor.mk cs p).rest_cases
    · rw [stream_blanks hblanks]
      exact ⟨Stream.increasing_finish _, fun q hq ↦ hq.advance cs⟩
    · simp only at hcs
      subst hcs
      have hne := kind.spelling_ne_nil hkind
      have hlt : rest.length < n := by
        have hpos := List.length_pos_iff.2 hne
        simp only [List.length_append] at hn
        omega
      obtain ⟨hlater, hhead⟩ := ih _ hlt rest ((p.advance blanks).advance kind.spelling) rfl
      rw [stream_token hblanks hkind hend]
      exact ⟨hlater.cons (hhead _ ((p.advance blanks).before_advance hne)),
        fun q hq ↦ hq.advance blanks⟩

end MonkeyLang
