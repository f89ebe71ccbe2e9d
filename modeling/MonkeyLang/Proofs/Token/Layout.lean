import Mathlib.Data.List.Induction
import Mathlib.Data.List.TakeWhile
import MonkeyLang.Token.Stream

/-!
# How tokens lie in a text

A text is blanks, a token, blanks, a token and so on to its end.  This file says which tokens can
lie in a text and where one of them ends, without saying how to find them:

* `TokenKind.WellFormed` is what the text of a token may be, seen by itself.
* `TokenKind.EndsBefore` and `TokenKind.StartsAfter` are the conditions on its neighbours: a word
  or a number is all of a run, and a one-character symbol is not half of a longer one.
* `Layout kinds text` puts tokens one after the other with blanks between them.
* `Laid before tokens rest` does the same after a part `before` of the text, and adds the places of
  the tokens and the end of the input.

The main statements are that the cursor finds exactly the tokens of a layout: `layout_iff` for the
kinds, and `laid_iff_tokenize` for whole tokens.

## Why two descriptions

`Layout` looks ahead only.  Whether a token ends is decided by what follows it, which is all that
the scanner ever looks at, so `Layout` is the description that the scanner can be proved to meet by
following it, and that a renderer can be proved to produce.  It does not say that a word starts
where its run of letters starts.  That is so because no token ends inside of a run, but it is a
consequence and not visible in the description.

`Laid` says it, with the part of the text in front of each token at hand, and with the place of
each token computed from that part by counting line feeds.  It is the one that a reader of a
specification wants.  `laid_stream` is the bridge: if no run leads across a place, then none leads
across the end of the next token, and the conditions on both sides hold all the way.

## Illegal characters

An illegal character is described without the scanner: it is no blank, and no token of the language
starts with it.  The five tests that the scanner makes are shown to come to the same
(`TokenKind.wellFormed_illegal_iff`).  Words that cannot be identifiers are listed by their text
for the same reason.
-/

set_option autoImplicit false

namespace MonkeyLang

/-! ## The tokens by themselves -/

/-- `cs` does not go on with a character of the class.  `StopsAt` and `StartsFresh` look at a
single character, the first one of what follows or the last one of what is before.  At either end
of the text they hold, whatever the class. -/
def StopsAt (accepts : Char → Bool) (cs : List Char) : Prop :=
  ∀ c ∈ cs.head?, accepts c = false

/-- `cs` does not end with a character of the class. -/
def StartsFresh (accepts : Char → Bool) (cs : List Char) : Prop :=
  ∀ c ∈ cs.getLast?, accepts c = false

/-- The words that no identifier can be. -/
def reservedWords : List String := ["else", "false", "fn", "if", "let", "return", "true"]

namespace TokenKind

/-- The kinds that belong to the language, or to a string of it that was not closed.  The second
are listed with the first because the scanner takes them for tokens in the same way. -/
def Legal : TokenKind → Prop
  | ident name =>
    name.toList ≠ [] ∧ (∀ c ∈ name.toList, isLetter c = true) ∧ name ∉ reservedWords
  | int digits => digits.toList ≠ [] ∧ ∀ c ∈ digits.toList, c.isDigit = true
  | string text | unterminated text => '"' ∉ text.toList
  | symbol _ | keyword _ => True
  | illegal _ | eof => False

/-- The kinds that can lie in a text.  An illegal character is no blank, and no legal token starts
with it. -/
def WellFormed : TokenKind → Prop
  | illegal c => isBlank c = false ∧ ∀ kind : TokenKind, kind.Legal → kind.spelling.head? ≠ some c
  | kind => kind.Legal

/-- What may follow a token directly: nothing that would make it longer.  For most kinds it is a
class of characters that may not follow.  For a string that is not closed nothing at all may. -/
def EndsBefore : TokenKind → List Char → Prop
  | ident _, rest | keyword _, rest => StopsAt isLetter rest
  | int _, rest => StopsAt Char.isDigit rest
  | symbol .assign, rest | symbol .bang, rest => StopsAt (· == '=') rest
  | unterminated _, rest => rest = []
  | _, _ => True

/-- What may stand directly before a token: nothing that its run should have started with. -/
def StartsAfter : TokenKind → List Char → Prop
  | ident _, before | keyword _, before => StartsFresh isLetter before
  | int _, before => StartsFresh Char.isDigit before
  | _, _ => True

end TokenKind

/-! ## Reserved words -/

theorem Keyword.ofWord?_eq_none_iff (word : String) :
    Keyword.ofWord? word = none ↔ word ∉ reservedWords := by
  simp only [Keyword.ofWord?, reservedWords, Keyword.spelling, List.find?_eq_none, List.mem_cons,
    List.not_mem_nil, or_false, forall_eq_or_imp, forall_eq, beq_iff_eq, not_or]
  grind

theorem Keyword.letters_spelling (k : Keyword) : ∀ c ∈ k.spelling.toList, isLetter c = true := by
  have h : k.spelling.toList.all isLetter = true := by cases k <;> decide
  exact List.all_eq_true.1 h

theorem TokenKind.ofWord_keyword (k : Keyword) : TokenKind.ofWord k.spelling = .keyword k := by
  rw [TokenKind.ofWord, Keyword.ofWord?_spelling]

theorem TokenKind.ofWord_ident {word : String} (h : word ∉ reservedWords) :
    TokenKind.ofWord word = .ident word := by
  rw [TokenKind.ofWord, (Keyword.ofWord?_eq_none_iff word).2 h]

/-! ## Characters that start nothing

The scanner tries classes one after the other, so that an illegal character is what none of its
tests accepts.  To compare this with the tokens of the language one has to know how these can
start. -/

theorem Symbol.ofChar?_eq_none {c : Char} (h : isLetter c = true ∨ c.isDigit = true ∨ c = '"') :
    Symbol.ofChar? c = none := by
  unfold Symbol.ofChar?
  split <;> first | rfl | (revert h; decide)

/-- Every symbol but the two with an equals sign at the end is found by its only character, and
these two by their first one. -/
theorem Symbol.spelling_cases (s : Symbol) :
    (∃ c, s.spelling.toList = [c] ∧ Symbol.ofChar? c = some s) ∨
      ∃ c shorter, s.spelling.toList = [c, '='] ∧ Symbol.ofChar? c = some shorter ∧
        shorter.beforeEquals? = some s := by
  cases s <;>
    first
    | exact .inl ⟨_, rfl, rfl⟩
    | exact .inr ⟨_, .assign, rfl, rfl, rfl⟩
    | exact .inr ⟨_, .bang, rfl, rfl, rfl⟩

/-- The four ways in which a legal token can start. -/
theorem TokenKind.head?_spelling_of_legal {kind : TokenKind} {c : Char} (h : kind.Legal)
    (hc : kind.spelling.head? = some c) :
    isLetter c = true ∨ c.isDigit = true ∨ c = '"' ∨ (Symbol.ofChar? c).isSome = true := by
  cases kind with
  | ident name => exact .inl (h.2.1 c (List.mem_of_head? hc))
  | int digits => exact .inr (.inl (h.2 c (List.mem_of_head? hc)))
  | string text => exact .inr (.inr (.inl (by simpa [spelling, eq_comm] using hc)))
  | unterminated text => exact .inr (.inr (.inl (by simpa [spelling, eq_comm] using hc)))
  | keyword k => exact .inl (k.letters_spelling c (List.mem_of_head? hc))
  | symbol s =>
    have hc' : s.spelling.toList.head? = some c := hc
    obtain ⟨d, hd, hs⟩ | ⟨d, shorter, hd, hs, -⟩ := s.spelling_cases <;>
    · rw [hd, List.head?_cons, Option.some_inj] at hc'
      subst hc'
      exact .inr (.inr (.inr (by simp [hs])))
  | illegal d => exact h.elim
  | eof => exact h.elim

theorem isBlank_eq_false_of_legal {kind : TokenKind} {c : Char} (h : kind.Legal)
    (hc : kind.spelling.head? = some c) : isBlank c = false := by
  by_contra hb
  rw [Bool.not_eq_false, isBlank] at hb
  simp only [Bool.or_eq_true, beq_iff_eq] at hb
  have hstart := kind.head?_spelling_of_legal h hc
  rcases hb with ((rfl | rfl) | rfl) | rfl <;> revert hstart <;> decide

/-- No token starts with a blank. -/
theorem isBlank_eq_false_of_wellFormed {kind : TokenKind} {c : Char} (h : kind.WellFormed)
    (hc : kind.spelling.head? = some c) : isBlank c = false := by
  cases kind with
  | illegal d =>
    obtain rfl : d = c := by simpa [TokenKind.spelling, TokenKind.literal] using hc
    exact h.1
  | _ =>
    refine isBlank_eq_false_of_legal ?_ hc
    exact h

/-- What an illegal character is, in terms of the tests of the scanner. -/
theorem TokenKind.wellFormed_illegal_iff (c : Char) :
    (TokenKind.illegal c).WellFormed ↔
      isBlank c = false ∧ isLetter c = false ∧ c.isDigit = false ∧ c ≠ '"' ∧
        Symbol.ofChar? c = none := by
  refine and_congr_right fun _ ↦ ⟨fun h ↦ ⟨?_, ?_, ?_, ?_⟩, ?_⟩
  · by_contra hc
    refine h (.ident (String.ofList [c])) ⟨by simp, by simpa using hc, fun hmem ↦ ?_⟩
      (by simp [spelling, literal])
    have hlen : ∀ word ∈ reservedWords, word.toList.length ≠ 1 := by decide
    exact hlen _ hmem (by simp)
  · by_contra hc
    exact h (.int (String.ofList [c])) ⟨by simp, by simpa using hc⟩ (by simp [spelling, literal])
  · rintro rfl
    exact h (.string "") (by simp [Legal]) rfl
  · rw [Option.eq_none_iff_forall_ne_some]
    intro s hs
    exact h (.symbol s) trivial (by simp [spelling, literal, Symbol.spelling_of_ofChar? hs])
  · rintro ⟨hl, hd, hq, hs⟩ kind hk hc
    have hstart := kind.head?_spelling_of_legal hk hc
    simp [hl, hd, hq, hs] at hstart

/-! ## What the scanner finds

One lemma for each kind of token that the scanner can be in the middle of: what it cuts off is well
formed, and what it leaves does not go on with it. -/

theorem stopsAt_nil (accepts : Char → Bool) : StopsAt accepts [] := by
  simp [StopsAt]

theorem stopsAt_cons {accepts : Char → Bool} {c : Char} {cs : List Char} :
    StopsAt accepts (c :: cs) ↔ accepts c = false := by
  simp [StopsAt]

/-- This is why what was scanned is as long as possible. -/
theorem stopsAt_dropWhile (accepts : Char → Bool) (cs : List Char) :
    StopsAt accepts (cs.dropWhile accepts) := by
  intro c hc
  have h := List.head?_dropWhile_not accepts cs
  rw [Option.mem_def] at hc
  rw [hc] at h
  simpa using h

/-- A run that stops is found by taking characters as long as they belong to it. -/
theorem takeWhile_append_of_stopsAt {accepts : Char → Bool} {run rest : List Char}
    (hrun : ∀ c ∈ run, accepts c = true) (hrest : StopsAt accepts rest) :
    (run ++ rest).takeWhile accepts = run ∧ (run ++ rest).dropWhile accepts = rest := by
  rw [List.takeWhile_append_of_pos hrun, List.dropWhile_append_of_pos hrun]
  cases rest with
  | nil => simp
  | cons c cs => simp [stopsAt_cons.1 hrest]

/-- A word is a keyword or an identifier, and either way it is well formed. -/
theorem TokenKind.wellFormed_ofWord {word : String} {rest : List Char} (hne : word.toList ≠ [])
    (hword : ∀ c ∈ word.toList, isLetter c = true) (hrest : StopsAt isLetter rest) :
    (TokenKind.ofWord word).WellFormed ∧ (TokenKind.ofWord word).EndsBefore rest := by
  rw [TokenKind.ofWord]
  split
  · exact ⟨trivial, hrest⟩
  · rename_i h
    exact ⟨⟨hne, hword, (Keyword.ofWord?_eq_none_iff word).1 h⟩, hrest⟩

/-- A string runs to the next quote, so it has none inside; without a next quote it runs to the
end. -/
theorem scanString_wellFormed (cs : List Char) :
    (scanString cs).1.WellFormed ∧ (scanString cs).1.EndsBefore (scanString cs).2 := by
  have hquote : '"' ∉ (String.ofList (cs.takeWhile isQuotable)).toList := by
    rw [String.toList_ofList]
    intro h
    simpa [isQuotable] using List.mem_takeWhile_imp h
  rw [scanString]
  split
  · exact ⟨hquote, rfl⟩
  · exact ⟨hquote, trivial⟩

/-- A symbol that can grow by an equals sign does so exactly when one follows. -/
theorem scanSymbol_cases (s : Symbol) (cs : List Char) :
    (∃ longer rest, s.beforeEquals? = some longer ∧ cs = '=' :: rest ∧
        scanSymbol s cs = (.symbol longer, rest)) ∨
      ((∀ longer, s.beforeEquals? = some longer → StopsAt (· == '=') cs) ∧
        scanSymbol s cs = (.symbol s, cs)) := by
  cases hs : s.beforeEquals? with
  | none => exact .inr ⟨by simp, by rw [scanSymbol.eq_def, hs]⟩
  | some longer =>
    by_cases hcs : ∃ rest, cs = '=' :: rest
    · obtain ⟨rest, rfl⟩ := hcs
      exact .inl ⟨longer, rest, rfl, rfl, by simp [scanSymbol, hs]⟩
    · refine .inr ⟨fun _ _ c hc ↦ ?_, ?_⟩
      · obtain ⟨rest, rfl⟩ : ∃ rest, cs = c :: rest := List.head?_eq_some_iff.1 hc
        simpa using fun hceq ↦ hcs ⟨rest, by rw [hceq]⟩
      · rw [scanSymbol.eq_def]
        split
        · rename_i rest _
          exact absurd ⟨rest, rfl⟩ hcs
        · rfl

theorem scanSymbol_wellFormed (s : Symbol) (cs : List Char) :
    (scanSymbol s cs).1.WellFormed ∧ (scanSymbol s cs).1.EndsBefore (scanSymbol s cs).2 := by
  obtain ⟨longer, rest, hs, -, h⟩ | ⟨hstop, h⟩ := scanSymbol_cases s cs
  · rw [h]
    refine ⟨trivial, ?_⟩
    cases s <;> simp [Symbol.beforeEquals?] at hs <;> subst hs <;> trivial
  · rw [h]
    refine ⟨trivial, ?_⟩
    cases s <;> first | trivial | exact hstop _ rfl

/-- **The scanner cuts off a well-formed token, and all of it.** -/
theorem scan_wellFormed {c : Char} (cs : List Char) (hc : isBlank c = false) :
    (scan c cs).1.WellFormed ∧ (scan c cs).1.EndsBefore (scan c cs).2 := by
  rw [scan]
  split
  · rename_i hl
    refine TokenKind.wellFormed_ofWord (by simp) ?_ (stopsAt_dropWhile _ _)
    simpa [hl] using fun d hd ↦ List.mem_takeWhile_imp hd
  · split
    · rename_i hd
      refine ⟨⟨by simp, ?_⟩, stopsAt_dropWhile _ _⟩
      simpa [hd] using fun d hd ↦ List.mem_takeWhile_imp hd
    · split
      · exact scanString_wellFormed cs
      · split
        · exact scanSymbol_wellFormed _ cs
        · rename_i hl hd hq _ hs
          refine ⟨(TokenKind.wellFormed_illegal_iff c).2 ⟨hc, ?_, ?_, hq, hs⟩, trivial⟩
          · simpa using hl
          · simpa using hd

/-! ## Every well-formed token is found

Read from its first character on, a well-formed token gives itself back, whatever follows it, as
long as it ends there. -/

/-- A run of letters is taken whole, and is then looked up among the reserved words. -/
theorem scan_word {word : String} {c : Char} {cs rest : List Char} (hword : word.toList = c :: cs)
    (hletters : ∀ d ∈ word.toList, isLetter d = true) (hrest : StopsAt isLetter rest) :
    scan c (cs ++ rest) = (.ofWord word, rest) := by
  rw [hword, List.forall_mem_cons] at hletters
  obtain ⟨htake, hdrop⟩ := takeWhile_append_of_stopsAt hletters.2 hrest
  rw [scan, if_pos hletters.1, htake, hdrop, ← hword, String.ofList_toList]

theorem isLetter_eq_false_of_isDigit {c : Char} (h : c.isDigit = true) : isLetter c = false := by
  have hdigit : '0'.val ≤ c.val ∧ c.val ≤ '9'.val := by simpa [Char.isDigit] using h
  have hupper : c.isUpper = false := by
    refine decide_eq_false fun hc ↦ ?_
    exact absurd (UInt32.le_trans hc.1 hdigit.2) (by decide)
  have hlower : c.isLower = false := by
    refine Bool.and_eq_false_imp.2 fun hc ↦ ?_
    exact absurd (UInt32.le_trans (of_decide_eq_true hc) hdigit.2) (by decide)
  have hunderscore : c ≠ '_' := by
    rintro rfl
    exact absurd h (by decide)
  exact Bool.or_eq_false_iff.2
    ⟨Bool.or_eq_false_iff.2 ⟨hupper, hlower⟩, beq_eq_false_iff_ne.2 hunderscore⟩

/-- A run of digits is taken whole, with its zeros. -/
theorem scan_digits {digits : String} {c : Char} {cs rest : List Char}
    (hdigits : digits.toList = c :: cs) (hall : ∀ d ∈ digits.toList, d.isDigit = true)
    (hrest : StopsAt Char.isDigit rest) : scan c (cs ++ rest) = (.int digits, rest) := by
  rw [hdigits, List.forall_mem_cons] at hall
  obtain ⟨htake, hdrop⟩ := takeWhile_append_of_stopsAt hall.2 hrest
  have hletter := isLetter_eq_false_of_isDigit hall.1
  rw [scan, if_neg (by simp [hletter]), if_pos hall.1, htake, hdrop, ← hdigits,
    String.ofList_toList]

theorem scan_quote (cs : List Char) : scan '"' cs = scanString cs := by
  rw [scan, if_neg (by decide), if_neg (by decide), if_pos rfl]

theorem isQuotable_of_quote_notMem {text : String} (h : '"' ∉ text.toList) :
    ∀ c ∈ text.toList, isQuotable c = true := by
  intro c hc
  rw [isQuotable, bne_iff_ne]
  rintro rfl
  exact h hc

theorem scan_string {text : String} (rest : List Char) (h : '"' ∉ text.toList) :
    scan '"' (text.toList ++ '"' :: rest) = (.string text, rest) := by
  have hstop : StopsAt isQuotable ('"' :: rest) := stopsAt_cons.2 rfl
  obtain ⟨htake, hdrop⟩ := takeWhile_append_of_stopsAt (isQuotable_of_quote_notMem h) hstop
  rw [scan_quote, scanString, htake, hdrop, String.ofList_toList]

theorem scan_unterminated {text : String} (h : '"' ∉ text.toList) :
    scan '"' text.toList = (.unterminated text, []) := by
  obtain ⟨htake, hdrop⟩ :=
    takeWhile_append_of_stopsAt (isQuotable_of_quote_notMem h) (stopsAt_nil isQuotable)
  rw [List.append_nil] at htake hdrop
  rw [scan_quote, scanString, htake, hdrop, String.ofList_toList]

theorem scan_ofChar {c : Char} {s : Symbol} (cs : List Char) (h : Symbol.ofChar? c = some s) :
    scan c cs = scanSymbol s cs := by
  have hnone : ¬ (isLetter c = true ∨ c.isDigit = true ∨ c = '"') := by
    intro hc
    rw [Symbol.ofChar?_eq_none hc] at h
    exact absurd h (by simp)
  rw [not_or, not_or] at hnone
  rw [scan, if_neg hnone.1, if_neg hnone.2.1, if_neg hnone.2.2, h]

/-- A symbol of two characters is found from its first one, and a symbol of one character wherever
it is not half of a longer one. -/
theorem scan_symbol {s : Symbol} {c : Char} {cs rest : List Char}
    (hs : s.spelling.toList = c :: cs) (hend : (TokenKind.symbol s).EndsBefore rest) :
    scan c (cs ++ rest) = (.symbol s, rest) := by
  obtain ⟨d, hd, hof⟩ | ⟨d, shorter, hd, hof, hlonger⟩ := s.spelling_cases
  · obtain ⟨rfl, rfl⟩ : d = c ∧ [] = cs := by simpa [hd] using hs
    rw [scan_ofChar _ hof, List.nil_append]
    obtain ⟨longer, rest', hlonger, rfl, -⟩ | ⟨-, h⟩ := scanSymbol_cases s rest
    · -- then the symbol is not all of the token
      have hstop : StopsAt (· == '=') ('=' :: rest') := by
        cases s <;> first | exact hend | simp [Symbol.beforeEquals?] at hlonger
      simp [stopsAt_cons] at hstop
    · exact h
  · obtain ⟨rfl, rfl⟩ : d = c ∧ ['='] = cs := by simpa [hd] using hs
    rw [scan_ofChar _ hof]
    obtain ⟨longer, rest', hlonger', hrest, h⟩ | ⟨hstop, -⟩ :=
      scanSymbol_cases shorter ('=' :: rest)
    · obtain rfl : rest = rest' := by simpa using hrest
      rw [hlonger, Option.some_inj] at hlonger'
      subst hlonger'
      exact h
    · simpa [stopsAt_cons] using hstop _ hlonger

/-- An illegal character is cut off by itself, whatever follows. -/
theorem scan_illegal {c : Char} (rest : List Char) (h : (TokenKind.illegal c).WellFormed) :
    scan c rest = (.illegal c, rest) := by
  obtain ⟨-, hl, hd, hq, hs⟩ := (TokenKind.wellFormed_illegal_iff c).1 h
  rw [scan, if_neg (by simp [hl]), if_neg (by simp [hd]), if_neg hq, hs]

theorem TokenKind.spelling_ne_nil {kind : TokenKind} (h : kind.WellFormed) :
    kind.spelling ≠ [] := by
  cases kind with
  | ident name => exact h.1
  | int digits => exact h.1
  | keyword k => cases k <;> decide
  | symbol s => cases s <;> decide
  | illegal c => simp [spelling, literal]
  | string text => simp [spelling]
  | unterminated text => simp [spelling]
  | eof => exact h.elim

/-- **A well-formed token that ends before `rest` is what the scanner cuts off in front of it.** -/
theorem scan_of_wellFormed {kind : TokenKind} {rest : List Char} (hk : kind.WellFormed)
    (hend : kind.EndsBefore rest) :
    ∃ c cs, kind.spelling = c :: cs ∧ isBlank c = false ∧ scan c (cs ++ rest) = (kind, rest) := by
  obtain ⟨c, cs, hcs⟩ := List.exists_cons_of_ne_nil (kind.spelling_ne_nil hk)
  have hhead : kind.spelling.head? = some c := by rw [hcs, List.head?_cons]
  refine ⟨c, cs, hcs, isBlank_eq_false_of_wellFormed hk hhead, ?_⟩
  cases kind with
  | ident name =>
    rw [← TokenKind.ofWord_ident hk.2.2]
    exact scan_word hcs hk.2.1 hend
  | int digits => exact scan_digits hcs hk.2 hend
  | string text =>
    obtain ⟨rfl, rfl⟩ : '"' = c ∧ text.toList ++ ['"'] = cs := List.cons.inj hcs
    rw [List.append_assoc]
    exact scan_string rest hk
  | unterminated text =>
    obtain ⟨rfl, rfl⟩ : '"' = c ∧ text.toList = cs := List.cons.inj hcs
    obtain rfl : rest = [] := hend
    rw [List.append_nil]
    exact scan_unterminated hk
  | keyword k =>
    rw [← TokenKind.ofWord_keyword k]
    exact scan_word hcs k.letters_spelling hend
  | symbol s => exact scan_symbol hcs hend
  | illegal d =>
    obtain ⟨rfl, rfl⟩ : d = c ∧ [] = cs := by
      simpa [TokenKind.spelling, TokenKind.literal] using hcs
    exact scan_illegal rest hk
  | eof => exact hk.elim

/-! ## Layouts

The cursor is taken through a layout from the front.  One direction goes by the layout, the other
one by the length of the text that is left. -/

/-- `Layout kinds text`: the text is tokens of these kinds, in order, with blanks before, between
and after them.  Two tokens may touch where the first one ends anyway. -/
inductive Layout : List TokenKind → List Char → Prop
  | finish {blanks : List Char} (hblanks : ∀ c ∈ blanks, isBlank c = true) : Layout [] blanks
  | token {blanks rest : List Char} {kind : TokenKind} {kinds : List TokenKind}
      (hblanks : ∀ c ∈ blanks, isBlank c = true) (hkind : kind.WellFormed)
      (hend : kind.EndsBefore rest) (later : Layout kinds rest) :
      Layout (kind :: kinds) (blanks ++ (kind.spelling ++ rest))

/-- No end of the input lies in a text. -/
theorem Layout.wellFormed {kinds : List TokenKind} {text : List Char} (h : Layout kinds text) :
    ∀ kind ∈ kinds, kind.WellFormed := by
  induction h with
  | finish => simp
  | token _ hkind _ _ ih => exact List.forall_mem_cons.2 ⟨hkind, ih⟩

namespace Cursor

theorem next_blanks {blanks : List Char} (h : ∀ c ∈ blanks, isBlank c = true) (p : Position) :
    (Cursor.mk blanks p).next = (.eof (p.advance blanks), ⟨[], (p.advance blanks).right⟩) := by
  obtain ⟨htake, hdrop⟩ := takeWhile_append_of_stopsAt h (stopsAt_nil isBlank)
  rw [List.append_nil] at htake hdrop
  simp only [next, htake, hdrop]

/-- The next token of a cursor that stands in front of blanks and a well-formed token. -/
theorem next_token {blanks rest : List Char} {kind : TokenKind}
    (hblanks : ∀ c ∈ blanks, isBlank c = true) (hkind : kind.WellFormed)
    (hend : kind.EndsBefore rest) (p : Position) :
    (Cursor.mk (blanks ++ (kind.spelling ++ rest)) p).next =
      (⟨kind, p.advance blanks⟩, ⟨rest, (p.advance blanks).advance kind.spelling⟩) := by
  obtain ⟨c, cs, hcs, hc, hscan⟩ := scan_of_wellFormed hkind hend
  have hstop : StopsAt isBlank (kind.spelling ++ rest) := by
    rw [hcs, List.cons_append]
    exact stopsAt_cons.2 hc
  obtain ⟨htake, hdrop⟩ := takeWhile_append_of_stopsAt hblanks hstop
  rw [hcs, List.cons_append] at hdrop
  simp only [next, htake]
  rw [hcs, List.cons_append, hdrop]
  simp only [hscan]
  rw [hcs]

theorem stream_blanks {blanks : List Char} (h : ∀ c ∈ blanks, isBlank c = true) (p : Position) :
    (Cursor.mk blanks p).stream = ⟨[], p.advance blanks⟩ := by
  have hnext := next_blanks h p
  rw [stream, dif_pos (by rw [hnext]; rfl), hnext]
  rfl

/-- The tokens from a place in front of blanks and a token: the token, and those from behind it. -/
theorem stream_token {blanks rest : List Char} {kind : TokenKind}
    (hblanks : ∀ c ∈ blanks, isBlank c = true) (hkind : kind.WellFormed)
    (hend : kind.EndsBefore rest) (p : Position) :
    (Cursor.mk (blanks ++ (kind.spelling ++ rest)) p).stream =
      let later := (Cursor.mk rest ((p.advance blanks).advance kind.spelling)).stream
      ⟨⟨kind, p.advance blanks⟩ :: later.pending, later.finish⟩ := by
  have hne : kind ≠ .eof := by
    rintro rfl
    exact hkind.elim
  have hnext := next_token hblanks hkind hend p
  rw [stream, dif_neg (by rw [hnext]; exact hne)]
  simp only [hnext]

/-- A cursor in front of a layout delivers the tokens of the layout. -/
theorem kinds_of_layout {kinds : List TokenKind} {text : List Char} (h : Layout kinds text)
    (p : Position) : (Cursor.mk text p).stream.pending.map Token.kind = kinds := by
  induction h generalizing p with
  | finish hblanks => rw [stream_blanks hblanks]; rfl
  | token hblanks hkind hend _ ih =>
    rw [stream_token hblanks hkind hend]
    simp only [List.map_cons, ih]

/-- What a cursor does next: it has reached the end, or it stands in front of a token.  The token
and what is behind it are given, so that the proofs about streams can go on from there. -/
theorem rest_cases (k : Cursor) :
    (∀ c ∈ k.rest, isBlank c = true) ∨
      ∃ blanks kind rest, (∀ c ∈ blanks, isBlank c = true) ∧ TokenKind.WellFormed kind ∧
        kind.EndsBefore rest ∧ k.rest = blanks ++ (kind.spelling ++ rest) := by
  have happend := List.takeWhile_append_dropWhile (p := isBlank) (l := k.rest)
  have hblanks : ∀ c ∈ k.rest.takeWhile isBlank, isBlank c = true :=
    fun c hc ↦ List.mem_takeWhile_imp hc
  cases hd : k.rest.dropWhile isBlank with
  | nil =>
    rw [hd, List.append_nil] at happend
    exact .inl (happend ▸ hblanks)
  | cons c cs =>
    have hc : isBlank c = false := by
      have hstop := stopsAt_dropWhile isBlank k.rest
      rw [hd] at hstop
      exact stopsAt_cons.1 hstop
    obtain ⟨hkind, hend⟩ := scan_wellFormed cs hc
    refine .inr ⟨_, _, _, hblanks, hkind, hend, ?_⟩
    rw [spelling_scan, ← hd, happend]

/-- What a cursor delivers lies in its text. -/
theorem layout_stream (k : Cursor) : Layout (k.stream.pending.map Token.kind) k.rest := by
  obtain ⟨text, p⟩ := k
  induction hn : text.length using Nat.strongRecOn generalizing text p with
  | ind n ih =>
    obtain h | ⟨blanks, kind, rest, hblanks, hkind, hend, hrest⟩ := (Cursor.mk text p).rest_cases
    · rw [stream_blanks h]
      exact .finish h
    · simp only at hrest
      subst hrest
      have hlt : rest.length < n := by
        have hpos := List.length_pos_iff.2 (kind.spelling_ne_nil hkind)
        simp only [List.length_append] at hn
        omega
      rw [stream_token hblanks hkind hend]
      exact .token hblanks hkind hend (ih _ hlt rest _ rfl)

end Cursor

/-- **The kinds of a text are the only ones that lie in it.** -/
theorem layout_iff (kinds : List TokenKind) (text : String) :
    Layout kinds text.toList ↔ (Cursor.ofText text).stream.pending.map Token.kind = kinds := by
  refine ⟨fun h ↦ Cursor.kinds_of_layout h _, ?_⟩
  rintro rfl
  exact (Cursor.ofText text).layout_stream

/-! ## Places

The cursor moves its place character by character.  The specification counts instead, from the
start of the text. -/

/-- The place after the characters `cs` of a text: one line further for each line feed in `cs`, and
one column further for each character after the last of them. -/
def Position.after (cs : List Char) : Position :=
  ⟨1 + cs.count '\n', 1 + (cs.reverse.takeWhile (· != '\n')).length⟩

theorem Position.after_append_singleton (cs : List Char) (c : Char) :
    Position.after (cs ++ [c]) = (Position.after cs).step c := by
  by_cases hc : c = '\n'
  · subst hc
    simp [after, step, Nat.add_assoc]
  · simp [after, step, right, hc, Nat.add_comm]

/-- Moving character by character leads to the place that counting gives. -/
theorem Position.advance_start (cs : List Char) :
    Position.start.advance cs = Position.after cs := by
  induction cs using List.reverseRecOn with
  | nil => rfl
  | append_singleton cs c ih => rw [advance_append, ih, after_append_singleton]; rfl

/-- The place behind two parts of a text, from the place behind the first one. -/
theorem Position.advance_after (before cs : List Char) :
    (Position.after before).advance cs = Position.after (before ++ cs) := by
  rw [← advance_start, ← advance_start, advance_append]

/-! ## Runs are whole -/

/-- No run of characters of the class goes on from `before` into `rest`.  What has to be known of a
place between two tokens is that no run of letters and no run of digits leads across it.  This is
true at the start of the text, it is kept by a token that ends, and it is what makes the next token
start afresh. -/
def NoRunAcross (accepts : Char → Bool) (before rest : List Char) : Prop :=
  StartsFresh accepts before ∨ StopsAt accepts rest

theorem startsFresh_append {accepts : Char → Bool} (xs : List Char) {ys : List Char}
    (h : ys ≠ []) : StartsFresh accepts (xs ++ ys) ↔ StartsFresh accepts ys := by
  rw [StartsFresh, StartsFresh, List.getLast?_append, List.getLast?_eq_some_getLast h,
    Option.some_or]

theorem startsFresh_of_forall {accepts : Char → Bool} {cs : List Char}
    (h : ∀ c ∈ cs, accepts c = false) : StartsFresh accepts cs :=
  fun c hc ↦ h c (List.mem_of_getLast? hc)

/-- A run after blanks starts afresh if it does not go on from what is before the blanks. -/
theorem NoRunAcross.startsFresh {accepts : Char → Bool} {before blanks run rest : List Char}
    (h : NoRunAcross accepts before (blanks ++ (run ++ rest)))
    (hblanks : ∀ c ∈ blanks, isBlank c = true) (hclass : ∀ c, isBlank c = true → accepts c = false)
    (hne : run ≠ []) (hrun : ∀ c ∈ run, accepts c = true) :
    StartsFresh accepts (before ++ blanks) := by
  by_cases hb : blanks = []
  · subst hb
    rw [List.append_nil]
    refine h.resolve_right fun hstop ↦ ?_
    obtain ⟨c, cs, rfl⟩ := List.exists_cons_of_ne_nil hne
    have hc := stopsAt_cons.1 hstop
    rw [hrun c List.mem_cons_self] at hc
    exact absurd hc (by simp)
  · rw [startsFresh_append _ hb]
    exact startsFresh_of_forall fun c hc ↦ hclass c (hblanks c hc)

theorem isLetter_eq_false_of_isBlank (c : Char) (h : isBlank c = true) : isLetter c = false := by
  simp only [isBlank, Bool.or_eq_true, beq_iff_eq] at h
  rcases h with ((rfl | rfl) | rfl) | rfl <;> decide

theorem isDigit_eq_false_of_isBlank (c : Char) (h : isBlank c = true) : c.isDigit = false := by
  simp only [isBlank, Bool.or_eq_true, beq_iff_eq] at h
  rcases h with ((rfl | rfl) | rfl) | rfl <;> decide

theorem isDigit_eq_false_of_isLetter {c : Char} (h : isLetter c = true) : c.isDigit = false := by
  by_contra hd
  rw [isLetter_eq_false_of_isDigit (by simpa using hd)] at h
  exact absurd h (by simp)

/-- A token that ends takes all of its run with it, and leaves none of another class. -/
theorem TokenKind.noRunAcross_spelling {kind : TokenKind} {rest : List Char}
    (hk : kind.WellFormed) (hend : kind.EndsBefore rest) (before : List Char) :
    NoRunAcross isLetter (before ++ kind.spelling) rest ∧
      NoRunAcross Char.isDigit (before ++ kind.spelling) rest := by
  rw [NoRunAcross, NoRunAcross, startsFresh_append _ (kind.spelling_ne_nil hk),
    startsFresh_append _ (kind.spelling_ne_nil hk)]
  cases kind with
  | ident name =>
    exact ⟨.inr hend,
      .inl (startsFresh_of_forall fun c hc ↦ isDigit_eq_false_of_isLetter (hk.2.1 c hc))⟩
  | keyword k =>
    have hdigit : ∀ c ∈ k.spelling.toList, c.isDigit = false :=
      fun c hc ↦ isDigit_eq_false_of_isLetter (k.letters_spelling c hc)
    exact ⟨.inr hend, .inl (startsFresh_of_forall hdigit)⟩
  | int digits =>
    exact ⟨.inl (startsFresh_of_forall fun c hc ↦ isLetter_eq_false_of_isDigit (hk.2 c hc)),
      .inr hend⟩
  | string text =>
    have hquote : (string text).spelling = ('"' :: text.toList) ++ ['"'] := rfl
    rw [hquote, startsFresh_append _ (by simp), startsFresh_append _ (by simp)]
    exact ⟨.inl (startsFresh_of_forall (by simp [isLetter])),
      .inl (startsFresh_of_forall (by simp))⟩
  | unterminated text =>
    obtain rfl : rest = [] := hend
    exact ⟨.inr (stopsAt_nil _), .inr (stopsAt_nil _)⟩
  | symbol s =>
    have hall : (s.spelling.toList.all fun c ↦ !isLetter c && !c.isDigit) = true := by
      cases s <;> decide
    have hs : ∀ c ∈ s.spelling.toList, isLetter c = false ∧ c.isDigit = false := by
      simpa using hall
    exact ⟨.inl (startsFresh_of_forall fun c hc ↦ (hs c hc).1),
      .inl (startsFresh_of_forall fun c hc ↦ (hs c hc).2)⟩
  | illegal c =>
    obtain ⟨-, hl, hd, -⟩ := (wellFormed_illegal_iff c).1 hk
    exact ⟨.inl (by simpa [StartsFresh, spelling, literal] using hl),
      .inl (by simpa [StartsFresh, spelling, literal] using hd)⟩
  | eof => exact hk.elim

/-- A token that no run leads into starts where its run starts. -/
theorem TokenKind.startsAfter_of_noRunAcross {kind : TokenKind} {before blanks rest : List Char}
    (hk : kind.WellFormed) (hblanks : ∀ c ∈ blanks, isBlank c = true)
    (hletter : NoRunAcross isLetter before (blanks ++ (kind.spelling ++ rest)))
    (hdigit : NoRunAcross Char.isDigit before (blanks ++ (kind.spelling ++ rest))) :
    kind.StartsAfter (before ++ blanks) := by
  have hne := kind.spelling_ne_nil hk
  cases kind with
  | ident name => exact hletter.startsFresh hblanks isLetter_eq_false_of_isBlank hne hk.2.1
  | keyword k =>
    exact hletter.startsFresh hblanks isLetter_eq_false_of_isBlank hne k.letters_spelling
  | int digits => exact hdigit.startsFresh hblanks isDigit_eq_false_of_isBlank hne hk.2
  | _ => trivial

/-! ## The tokens of a text -/

/-- `Laid before tokens rest`: after the part `before` of a text, `rest` is blanks and the spelling
of a token in turn, up to blanks in front of the end of the input.  Each token is well formed, is
all of its run on both sides, and knows the place of its first character. -/
inductive Laid : List Char → List Token → List Char → Prop
  | finish {before blanks : List Char} (hblanks : ∀ c ∈ blanks, isBlank c = true) :
      Laid before [⟨.eof, .after (before ++ blanks)⟩] blanks
  | token {before blanks rest : List Char} {kind : TokenKind} {tokens : List Token}
      (hblanks : ∀ c ∈ blanks, isBlank c = true) (hkind : kind.WellFormed)
      (hstart : kind.StartsAfter (before ++ blanks)) (hend : kind.EndsBefore rest)
      (later : Laid (before ++ blanks ++ kind.spelling) tokens rest) :
      Laid before (⟨kind, .after (before ++ blanks)⟩ :: tokens) (blanks ++ (kind.spelling ++ rest))

namespace Cursor

/-- A cursor in front of laid tokens delivers these tokens. -/
theorem tokens_of_laid {before rest : List Char} {tokens : List Token}
    (h : Laid before tokens rest) : (Cursor.mk rest (.after before)).stream.tokens = tokens := by
  induction h with
  | finish hblanks =>
    rw [stream_blanks hblanks, Position.advance_after]
    rfl
  | token hblanks hkind _ hend _ ih =>
    rw [stream_token hblanks hkind hend, Position.advance_after, Position.advance_after]
    exact congrArg _ ih

/-- The tokens from a place on lie in the rest of the text, if no run leads across that place. -/
theorem laid_stream (before rest : List Char) (hletter : NoRunAcross isLetter before rest)
    (hdigit : NoRunAcross Char.isDigit before rest) :
    Laid before (Cursor.mk rest (.after before)).stream.tokens rest := by
  -- the text shrinks with every token, and the invariant is that no run leads across the cursor
  induction hn : rest.length using Nat.strongRecOn generalizing before rest with
  | ind n ih =>
    obtain h | ⟨blanks, kind, rest', hblanks, hkind, hend, hrest⟩ :=
      (Cursor.mk rest (.after before)).rest_cases
    · rw [stream_blanks h, Position.advance_after]
      exact .finish h
    · simp only at hrest
      subst hrest
      have hlt : rest'.length < n := by
        have hpos := List.length_pos_iff.2 (kind.spelling_ne_nil hkind)
        simp only [List.length_append] at hn
        omega
      obtain ⟨hletter', hdigit'⟩ := kind.noRunAcross_spelling hkind hend (before ++ blanks)
      rw [stream_token hblanks hkind hend, Position.advance_after, Position.advance_after]
      exact .token hblanks hkind (kind.startsAfter_of_noRunAcross hkind hblanks hletter hdigit)
        hend (ih _ hlt _ rest' hletter' hdigit' rfl)

/-- The tokens that a cursor delivers are well formed. -/
theorem wellFormed_of_mem_pending (k : Cursor) : ∀ t ∈ k.stream.pending, t.kind.WellFormed :=
  fun _ ht ↦ k.layout_stream.wellFormed _ (List.mem_map_of_mem ht)

/-- The end of the input is not among the tokens before it. -/
theorem kind_ne_eof_of_mem_pending (k : Cursor) : ∀ t ∈ k.stream.pending, t.kind ≠ .eof := by
  intro t ht heof
  have h := k.wellFormed_of_mem_pending t ht
  rw [heof] at h
  exact h

end Cursor

/-- **Cutting a text into tokens loses nothing, takes runs whole, and places every token.**  There
is one end of the input, at the end, and the tokens of a text are the only ones laid out in it. -/
theorem laid_iff_tokenize (text : String) :
    (∃ tokens p, tokenize text = tokens ++ [.eof p] ∧ ∀ t ∈ tokens, t.kind ≠ .eof) ∧
      ∀ tokens, Laid [] tokens text.toList ↔ tokens = tokenize text := by
  refine ⟨⟨_, _, rfl, (Cursor.ofText text).kind_ne_eof_of_mem_pending⟩, fun tokens ↦ ⟨?_, ?_⟩⟩
  · intro h
    exact (Cursor.tokens_of_laid h).symm
  · rintro rfl
    have hstart : ∀ accepts, NoRunAcross accepts [] text.toList :=
      fun accepts ↦ .inl (startsFresh_of_forall (by simp))
    exact Cursor.laid_stream [] text.toList (hstart _) (hstart _)

end MonkeyLang
