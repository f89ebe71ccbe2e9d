import MonkeyLang.Shell.Transcript

/-!
# Lines of bytes and lines of text

`CutAfter mark` says what it means to cut a list after each `mark`: every piece ends with its only
mark, but for a last one that may have none and is not empty then.  `Shell.lines` cuts bytes after
each line feed (`Shell.lines_eq_iff`).

In UTF-8 a line feed is one byte, and this byte is part of no other character.  So the lines of a
text and the lines of its bytes are the same, and each line of a valid text is valid:
`CutAfter.utf8` and `Shell.Reads.of_text`.

The pieces keep their marks.  Without them the last line of an input that ends with a line feed
could not be told from an empty one after it, and the shell asks for a line more or less depending
on that.  An input without any bytes has no lines.

An input need not be valid.  `Shell.Reads` splits its lines into texts and the rest, where the rest
starts with the first line that is no text, even if there are texts after it.  There is exactly one
way to do so, but existence is all that is needed: what the shell does with an input is said for
every such split.

`CutAfter` is a relation for lists of anything, since it is used twice, for bytes and for
characters.
-/

set_option autoImplicit false

namespace MonkeyLang

/-! ## Cutting lists -/

/-- The pieces of a list that is cut after each `mark`.  The relation puts pieces together from the
last one to the first, as `Shell.lines` does. -/
inductive CutAfter {α : Type} (mark : α) : List α → List (List α) → Prop where
  | nil : CutAfter mark [] []
  /-- A last piece without a mark. -/
  | last {piece : List α} : piece ≠ [] → mark ∉ piece → CutAfter mark piece [piece]
  | cons {piece rest : List α} {pieces : List (List α)} : mark ∉ piece →
      CutAfter mark rest pieces →
        CutAfter mark (piece ++ mark :: rest) ((piece ++ [mark]) :: pieces)

/-- Put an element in front of the first piece.  If there is no piece, a piece is made of the
element alone. -/
def inFront {α : Type} (a : α) : List (List α) → List (List α)
  | [] => [[a]]
  | piece :: pieces => (a :: piece) :: pieces

namespace CutAfter

variable {α : Type} {mark : α}

/-- An element in front that is no mark. -/
theorem inFront {a : α} (ha : a ≠ mark) {whole : List α} {pieces : List (List α)}
    (h : CutAfter mark whole pieces) : CutAfter mark (a :: whole) (inFront a pieces) := by
  cases h with
  | nil => exact .last (List.cons_ne_nil _ _) (by simpa using ha.symm)
  | last _ hmark => exact .last (List.cons_ne_nil _ _) (by simpa [hmark] using ha.symm)
  | @cons piece rest pieces hmark hrest =>
    have hpiece : mark ∉ a :: piece := by simpa [hmark] using ha.symm
    exact .cons hpiece hrest

/-- A mark in front. -/
theorem mark_cons {whole : List α} {pieces : List (List α)} (h : CutAfter mark whole pieces) :
    CutAfter mark (mark :: whole) ([mark] :: pieces) :=
  .cons List.not_mem_nil h

/-- Every list can be cut.  This and `lines_eq_iff` say that cutting is a function, and that it is
`lines`. -/
theorem exists_pieces [DecidableEq α] (mark : α) (whole : List α) :
    ∃ pieces, CutAfter mark whole pieces := by
  induction whole with
  | nil => exact ⟨[], .nil⟩
  | cons a rest ih =>
    obtain ⟨pieces, hpieces⟩ := ih
    by_cases ha : a = mark
    · subst ha
      exact ⟨_, hpieces.mark_cons⟩
    · exact ⟨_, hpieces.inFront ha⟩

end CutAfter

/-! ## Lines of bytes -/

namespace Shell

theorem lines_cons (b : UInt8) (rest : List UInt8) :
    lines (b :: rest) = if b = 10 then [b] :: lines rest else inFront b (lines rest) := by
  rw [lines]
  split
  · rfl
  · cases lines rest <;> rfl

theorem lines_of_notMem {line : List UInt8} (hne : line ≠ []) (h : 10 ∉ line) :
    lines line = [line] := by
  induction line with
  | nil => exact absurd rfl hne
  | cons b rest ih =>
    rw [List.mem_cons, not_or] at h
    obtain ⟨hb, hrest⟩ := h
    rw [lines_cons, if_neg (Ne.symm hb)]
    by_cases hnil : rest = []
    · subst hnil
      rfl
    · rw [ih hnil hrest]
      rfl

/-- The first line is cut off after its line feed. -/
theorem lines_append {line : List UInt8} (h : 10 ∉ line) (rest : List UInt8) :
    lines (line ++ 10 :: rest) = (line ++ [10]) :: lines rest := by
  induction line with
  | nil => exact lines_cons 10 rest
  | cons b line ih =>
    rw [List.mem_cons, not_or] at h
    obtain ⟨hb, hline⟩ := h
    rw [List.cons_append, lines_cons, if_neg (Ne.symm hb), ih hline]
    rfl

/-- `lines` cuts after each line feed, and there is only one way to do so. -/
theorem lines_eq_iff {bytes : List UInt8} {pieces : List (List UInt8)} :
    lines bytes = pieces ↔ CutAfter 10 bytes pieces := by
  constructor
  · rintro rfl
    induction bytes with
    | nil => exact .nil
    | cons b rest ih =>
      rw [lines_cons]
      split
      · rename_i hb
        subst hb
        exact ih.mark_cons
      · exact ih.inFront ‹_›
  · intro h
    induction h with
    | nil => rfl
    | last hne hmark => exact lines_of_notMem hne hmark
    | cons hmark _ ih => rw [lines_append hmark, ih]

end Shell

/-! ## Texts as bytes

Reading and writing UTF-8 is left to the library.  What is used of it is that it is done character
by character, and that it can be undone. -/

/-- The bytes of a text in UTF-8. -/
def utf8 (text : String) : List UInt8 := text.toUTF8.data.toList

/-- A text is encoded character by character. -/
theorem utf8_eq_flatMap (text : String) :
    utf8 text = text.toList.flatMap String.utf8EncodeChar := by
  rw [utf8, String.toUTF8_eq_toByteArray, ← String.utf8Encode_toList, List.utf8Encode,
    List.data_toByteArray, List.toList_toArray]

/-- So what a line of bytes stands for is determined. -/
theorem utf8_injective {a b : String} (h : utf8 a = utf8 b) : a = b := by
  refine String.toByteArray_inj.1 ?_
  exact ByteArray.ext (Array.toList_inj.1 h)

/-- Reading bytes undoes writing them, and nothing else can be read. -/
theorem Shell.decode?_eq_some_iff {line : List UInt8} {text : String} :
    Shell.decode? line = some text ↔ utf8 text = line := by
  rw [Shell.decode?, String.fromUTF8?]
  constructor
  · intro h
    split at h
    · obtain rfl := Option.some.inj h
      rfl
    · cases h
  · rintro rfl
    have hbytes : (⟨(utf8 text).toArray⟩ : ByteArray) = text.toByteArray := rfl
    rw [hbytes, dif_pos text.isValidUTF8]
    rfl

/-- The byte of a line feed is part of no other character. -/
theorem eq_lineFeed_of_mem {c : Char} (h : 10 ∈ String.utf8EncodeChar c) : c = '\n' := by
  have hbyte : ∀ n, n < 256 → (10 : UInt8) = UInt8.ofNat n → n = 10 := by
    intro n hn h10
    have hnat := congrArg UInt8.toNat h10
    rw [UInt8.toNat_ofNat_of_lt' hn] at hnat
    exact hnat.symm
  -- all bytes of a longer encoding are at least 128
  have hlarge : ∀ n, 128 ≤ n → n < 256 → (10 : UInt8) ≠ UInt8.ofNat n := by
    intro n hle hlt h10
    have hn := hbyte n hlt h10
    omega
  simp only [String.utf8EncodeChar] at h
  split at h
  · have hc := hbyte c.val.toNat (by omega) (List.mem_singleton.1 h)
    exact Char.ext (UInt32.toNat_inj.1 hc)
  · exfalso
    revert h
    split
    · simp only [List.mem_cons, List.not_mem_nil, or_false]
      rintro (h | h) <;> exact hlarge _ (by omega) (by omega) h
    · split
      · simp only [List.mem_cons, List.not_mem_nil, or_false]
        rintro (h | h | h) <;> exact hlarge _ (by omega) (by omega) h
      · simp only [List.mem_cons, List.not_mem_nil, or_false]
        rintro (h | h | h | h) <;> exact hlarge _ (by omega) (by omega) h

/-- The bytes of characters one after the other. -/
theorem lineFeed_notMem_flatMap {chars : List Char} (h : '\n' ∉ chars) :
    10 ∉ chars.flatMap String.utf8EncodeChar := by
  intro hmem
  obtain ⟨c, hc, hbyte⟩ := List.mem_flatMap.1 hmem
  exact h (eq_lineFeed_of_mem hbyte ▸ hc)

/-- Characters are cut where their bytes are, because a line feed is one byte and this byte occurs
in no other character. -/
theorem CutAfter.utf8EncodeChar {chars : List Char} {pieces : List (List Char)}
    (h : CutAfter '\n' chars pieces) :
    CutAfter 10 (chars.flatMap String.utf8EncodeChar)
      (pieces.map fun piece ↦ piece.flatMap String.utf8EncodeChar) := by
  induction h with
  | nil => exact .nil
  | @last piece hne hmark =>
    refine .last ?_ (lineFeed_notMem_flatMap hmark)
    obtain ⟨c, rest, rfl⟩ := List.exists_cons_of_ne_nil hne
    simp [String.utf8EncodeChar_ne_nil]
  | cons hmark _ ih =>
    simp only [List.map_cons, List.flatMap_append, List.flatMap_cons, List.flatMap_nil]
    exact .cons (lineFeed_notMem_flatMap hmark) ih

/-- The lines of a text are the lines of its bytes. -/
theorem CutAfter.utf8 {text : String} {texts : List String}
    (h : CutAfter '\n' text.toList (texts.map String.toList)) :
    CutAfter 10 (utf8 text) (texts.map MonkeyLang.utf8) := by
  have hbytes := h.utf8EncodeChar
  rw [List.map_map] at hbytes
  rw [utf8_eq_flatMap, List.map_congr_left fun t _ ↦ utf8_eq_flatMap t]
  exact hbytes

/-! ## Reading line by line -/

/-- The lines of the input up to the first one that is no valid text, and all later ones.  After a
line that cannot be decoded the shell reads no further, so what comes later may be anything. -/
structure Shell.Reads (input : List UInt8) (texts : List String) (rest : List (List UInt8)) :
    Prop where
  cut : CutAfter 10 input (texts.map utf8 ++ rest)
  stuck : ∀ line ∈ rest.head?, ∀ text, utf8 text ≠ line

namespace Shell.Reads

/-- The lines up to the first one that cannot be decoded, which may be none or all. -/
theorem exists_texts (lines : List (List UInt8)) :
    ∃ (texts : List String) (rest : List (List UInt8)), texts.map utf8 ++ rest = lines ∧
      ∀ line ∈ rest.head?, ∀ text, utf8 text ≠ line := by
  induction lines with
  | nil => exact ⟨[], [], rfl, fun line hline ↦ by cases hline⟩
  | cons line lines ih =>
    by_cases hline : ∃ text, utf8 text = line
    · obtain ⟨text, rfl⟩ := hline
      obtain ⟨texts, rest, rfl, hstuck⟩ := ih
      exact ⟨text :: texts, rest, rfl, hstuck⟩
    · refine ⟨[], line :: lines, rfl, ?_⟩
      rintro _ ⟨⟩ text htext
      exact hline ⟨text, htext⟩

/-- Every input can be read. -/
theorem exists_of_input (input : List UInt8) : ∃ texts rest, Reads input texts rest := by
  obtain ⟨texts, rest, hlines, hstuck⟩ := exists_texts (lines input)
  exact ⟨texts, rest, lines_eq_iff.1 hlines.symm, hstuck⟩

/-- The bytes of a text are read to the end, and the lines are those of the text. -/
theorem of_text {text : String} {texts : List String} {rest : List (List UInt8)}
    (h : Reads (utf8 text) texts rest) :
    rest = [] ∧ CutAfter '\n' text.toList (texts.map String.toList) := by
  obtain ⟨pieces, hpieces⟩ := CutAfter.exists_pieces '\n' text.toList
  have htexts : pieces = (pieces.map String.ofList).map String.toList := by
    simp [Function.comp_def]
  rw [htexts] at hpieces
  have hlines : (pieces.map String.ofList).map utf8 = texts.map utf8 ++ rest :=
    (lines_eq_iff.2 hpieces.utf8).symm.trans (lines_eq_iff.2 h.cut)
  obtain ⟨texts', later, hsplit, htexts', hlater⟩ := List.map_eq_append_iff.1 hlines
  -- a line that is no text is not among the lines of a text
  have hnil : later = [] := by
    cases later with
    | nil => rfl
    | cons line later =>
      rw [← hlater] at h
      exact absurd rfl (h.stuck (utf8 line) rfl line)
  subst hnil
  rw [List.append_nil] at hsplit
  rw [hsplit, (List.map_inj_right fun _ _ ↦ utf8_injective).1 htexts'] at hpieces
  exact ⟨hlater.symm, hpieces⟩

end Shell.Reads

end MonkeyLang
