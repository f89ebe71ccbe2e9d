import MonkeyLang.Proofs.Shell.Lines
import MonkeyLang.Token.Bytes
import MonkeyLang.Token.Scan

/-!
# Characters among bytes

A character is encoded as one byte below 128, which is the character itself, or as a first byte and
some bytes that continue it, all of which are at least 128 (`Encoded`).  So the first byte tells
whether a character belongs to a class of ASCII characters (`AsciiClass`), and no other byte passes
for a character of such a class.

Where a text is split between two characters, there is a boundary between the bytes
(`ByteReader.isBoundary_of_split`).  A slice between two boundaries is the text of the characters
there (`ByteReader.slice?_of_split`).

`Encoded` keeps of the encoding only what a reader of tokens can use.  How many bytes a character
takes, and which ones, is left to `String.utf8EncodeChar`, and the proofs here look into it once,
in `encoded_utf8EncodeChar`.  Positions in a text are given by splitting its list of characters,
never by numbers of bytes, because a number of bytes may lie inside of a character and a split
cannot.

Facts about single bytes are proved by going through all 256 of them (`forall_byte`); the kernel
does that in no time, and it spares lemmas about bits.
-/

set_option autoImplicit false

namespace MonkeyLang

/-! ## The bytes of a character

The two kinds of bytes do not overlap: a byte that starts a character never continues one.  This is
what makes it possible to find the characters of a text from its bytes, and to count them by
leaving out the bytes that continue one. -/

/-- What holds of all numbers below 256 holds of all bytes. -/
theorem forall_byte {p : UInt8 → Prop} (h : ∀ n < 256, p (UInt8.ofNat n)) (b : UInt8) : p b := by
  have hb := h b.toNat b.toNat_lt
  rwa [UInt8.ofNat_toNat] at hb

theorem isContinuation_iff :
    ∀ b : UInt8, isContinuation b = true ↔ 128 ≤ b.toNat ∧ b.toNat < 192 :=
  forall_byte (by decide +kernel)

/-- What the bytes of a character look like.  Nothing more than this is used of the encoding: which
bytes stand first, and which continue a character. -/
inductive Encoded (c : Char) : List UInt8 → Prop
  /-- An ASCII character is its byte. -/
  | ascii {b : UInt8} (hc : c.toNat < 128) (hb : b.toNat = c.toNat) : Encoded c [b]
  /-- Any other one has a large first byte, and bytes that continue it. -/
  | long {b : UInt8} {bs : List UInt8} (hc : 128 ≤ c.toNat) (hb : 192 ≤ b.toNat)
      (hbs : ∀ x ∈ bs, isContinuation x = true) : Encoded c (b :: bs)

/-- Every character is encoded in one of the two ways. -/
theorem encoded_utf8EncodeChar (c : Char) : Encoded c (String.utf8EncodeChar c) := by
  have htoNat {n : Nat} (h : n < 256) : (UInt8.ofNat n).toNat = n := UInt8.toNat_ofNat_of_lt' h
  have hfirst {n : Nat} (hle : 192 ≤ n) (hlt : n < 256) : 192 ≤ (UInt8.ofNat n).toNat := by
    rwa [htoNat hlt]
  have hnext {n : Nat} (hlt : n < 64) : isContinuation (UInt8.ofNat (n + 128)) = true := by
    rw [isContinuation_iff, htoNat (by omega)]
    omega
  simp only [String.utf8EncodeChar]
  split
  · rename_i hsmall
    exact .ascii (Nat.lt_succ_of_le hsmall) (htoNat (by omega))
  · rename_i hsmall
    have hc : 128 ≤ c.toNat := Nat.not_le.1 hsmall
    split
    · refine .long hc (hfirst (by omega) (by omega)) ?_
      exact List.forall_mem_singleton.2 (hnext (by omega))
    · split
      · refine .long hc (hfirst (by omega) (by omega)) ?_
        refine List.forall_mem_cons.2 ⟨hnext (by omega), ?_⟩
        exact List.forall_mem_singleton.2 (hnext (by omega))
      · refine .long hc (hfirst (by omega) (by omega)) ?_
        refine List.forall_mem_cons.2 ⟨hnext (by omega), ?_⟩
        refine List.forall_mem_cons.2 ⟨hnext (by omega), ?_⟩
        exact List.forall_mem_singleton.2 (hnext (by omega))

/-- The first byte of a character continues nothing, and the others do. -/
theorem Encoded.continuation {c : Char} {b : UInt8} {bs : List UInt8} (h : Encoded c (b :: bs)) :
    isContinuation b = false ∧ ∀ x ∈ bs, isContinuation x = true := by
  rw [Bool.eq_false_iff, Ne, isContinuation_iff]
  cases h with
  | ascii hc hb => exact ⟨by omega, by simp⟩
  | long hc hb hbs => exact ⟨by omega, hbs⟩

/-- A character has a first byte. -/
theorem exists_encoded (c : Char) :
    ∃ b bs, String.utf8EncodeChar c = b :: bs ∧ Encoded c (b :: bs) := by
  obtain ⟨b, bs, heq⟩ := List.exists_cons_of_ne_nil (String.utf8EncodeChar_ne_nil (c := c))
  exact ⟨b, bs, heq, heq ▸ encoded_utf8EncodeChar c⟩

/-! ## Classes of ASCII characters -/

theorem toNat_ofNat_byte (b : UInt8) : (Char.ofNat b.toNat).toNat = b.toNat := by
  have hvalid : b.toNat.isValidChar := .inl (Nat.lt_trans b.toNat_lt (by decide))
  rw [Char.ofNat, dif_pos hvalid]
  rfl

/-- A class of characters, and of the bytes that these are.  A test of bytes and a test of
characters belong together if they agree on ASCII and the test of characters accepts nothing else.
All tests that the reader makes are of this kind, and each of them is dealt with by the same four
lemmas. -/
structure AsciiClass (bytes : UInt8 → Bool) (chars : Char → Bool) : Prop where
  byte : ∀ b, bytes b = chars (Char.ofNat b.toNat)
  small : ∀ c, chars c = true → c.toNat < 128

namespace AsciiClass

variable {bytes : UInt8 → Bool} {chars : Char → Bool}

/-- A byte of a longer character is in no class. -/
theorem of_large (h : AsciiClass bytes chars) {b : UInt8} (hb : 128 ≤ b.toNat) :
    bytes b = false := by
  rw [h.byte, Bool.eq_false_iff]
  intro hchars
  have hsmall := h.small _ hchars
  rw [toNat_ofNat_byte] at hsmall
  omega

/-- The first byte of a character is in the class if the character is. -/
theorem first (h : AsciiClass bytes chars) {c : Char} {b : UInt8} {bs : List UInt8}
    (hc : Encoded c (b :: bs)) : bytes b = chars c := by
  cases hc with
  | ascii hsmall hb => rw [h.byte, hb, Char.ofNat_toNat]
  | long hlarge hb =>
    rw [h.of_large (Nat.le_trans (by decide) hb), eq_comm, Bool.eq_false_iff]
    exact fun hchars ↦ absurd (h.small c hchars) (Nat.not_lt.2 hlarge)

/-- No byte that continues a character is in the class. -/
theorem continuation (h : AsciiClass bytes chars) {b : UInt8} (hb : isContinuation b = true) :
    bytes b = false :=
  h.of_large ((isContinuation_iff b).1 hb).1

/-- A character of the class is a single byte. -/
theorem eq_nil (h : AsciiClass bytes chars) {c : Char} {b : UInt8} {bs : List UInt8}
    (hc : Encoded c (b :: bs)) (hchars : chars c = true) : bs = [] := by
  cases hc with
  | ascii => rfl
  | long hlarge => exact absurd (h.small c hchars) (Nat.not_lt.2 hlarge)

end AsciiClass

theorem asciiClass_letter : AsciiClass isLetterByte isLetter where
  byte := forall_byte (by decide +kernel)
  small c hc := by
    have hbound {n : UInt32} (hle : c.val ≤ n) (hn : n.toNat < 128) : c.toNat < 128 :=
      Nat.lt_of_le_of_lt (UInt32.le_iff_toNat_le.1 hle) hn
    rcases Bool.or_eq_true_iff.1 hc with hletter | hunderscore
    · rcases Bool.or_eq_true_iff.1 hletter with hupper | hlower
      · exact hbound (of_decide_eq_true hupper).2 (by decide)
      · exact hbound (of_decide_eq_true (Bool.and_eq_true_iff.1 hlower).2) (by decide)
    · obtain rfl := beq_iff_eq.1 hunderscore
      decide

theorem asciiClass_digit : AsciiClass isDigitByte Char.isDigit where
  byte := forall_byte (by decide +kernel)
  small c hc := by
    simp only [Char.isDigit, Bool.and_eq_true, decide_eq_true_eq, UInt32.le_iff_toNat_le] at hc
    exact Nat.lt_of_le_of_lt hc.2 (by decide)

theorem asciiClass_blank : AsciiClass isBlankByte isBlank where
  byte := forall_byte (by decide +kernel)
  small c hc := by
    simp only [isBlank, Bool.or_eq_true, beq_iff_eq] at hc
    rcases hc with ((rfl | rfl) | rfl) | rfl <;> decide

/-- One ASCII character is a class of its own. -/
theorem asciiClass_beq {c : Char} {b : UInt8} (hc : c.toNat < 128) (hb : b.toNat = c.toNat) :
    AsciiClass (· == b) (· == c) where
  byte x := by
    rw [Bool.eq_iff_iff, beq_iff_eq, beq_iff_eq]
    constructor
    · rintro rfl
      rw [hb, Char.ofNat_toNat]
    · rintro rfl
      rw [toNat_ofNat_byte] at hb
      exact UInt8.toNat_inj.1 hb.symm
  small d hd := by rwa [beq_iff_eq.1 hd]

theorem asciiClass_symbol : AsciiClass (fun b ↦ (Symbol.ofChar? (Char.ofNat b.toNat)).isSome)
    fun c ↦ (Symbol.ofChar? c).isSome where
  byte _ := rfl
  small c hc := by
    obtain ⟨s, hs⟩ := Option.isSome_iff_exists.1 hc
    have hsmall : s.spelling.toList.all (fun d ↦ decide (d.toNat < 128)) = true := by
      cases s <;> decide
    rwa [Symbol.spelling_of_ofChar? hs, List.all_cons, List.all_nil, Bool.and_true,
      decide_eq_true_eq] at hsmall

/-- The first byte of a character tells which symbol it is. -/
theorem ofChar?_first {c : Char} {b : UInt8} {bs : List UInt8} (hc : Encoded c (b :: bs)) :
    Symbol.ofChar? (Char.ofNat b.toNat) = Symbol.ofChar? c := by
  have hsome := asciiClass_symbol.first hc
  cases hc with
  | ascii hsmall hb => rw [hb, Char.ofNat_toNat]
  | long hlarge =>
    cases hchar : Symbol.ofChar? c with
    | some s =>
      have hsmall := asciiClass_symbol.small c (by rw [hchar]; rfl)
      omega
    | none =>
      rw [hchar] at hsome
      exact Option.not_isSome_iff_eq_none.1 (Bool.eq_false_iff.1 hsome)

/-! ## Splitting a text

The bytes of a text that is split into two parts are those of the one and then those of the other,
so that an index into the bytes can be computed from a split of the characters. -/

/-- The bytes of characters one after the other.  A text is cut between characters, and these are
the bytes of either part. -/
def utf8Chars (cs : List Char) : List UInt8 := cs.flatMap String.utf8EncodeChar

theorem utf8Chars_append (cs ds : List Char) :
    utf8Chars (cs ++ ds) = utf8Chars cs ++ utf8Chars ds :=
  List.flatMap_append

theorem utf8Chars_cons (c : Char) (cs : List Char) :
    utf8Chars (c :: cs) = String.utf8EncodeChar c ++ utf8Chars cs :=
  List.flatMap_cons

theorem length_le_length_utf8Chars (cs : List Char) : cs.length ≤ (utf8Chars cs).length := by
  induction cs with
  | nil => exact Nat.le_refl 0
  | cons c cs ih =>
    obtain ⟨b, bs, hc, -⟩ := exists_encoded c
    rw [utf8Chars_cons, hc, List.length_append, List.length_cons, List.length_cons]
    omega

namespace ByteReader

theorem utf8ByteSize_eq (text : String) : text.utf8ByteSize = (utf8 text).length := rfl

/-- Beyond the last byte there is a zero, as the reader has it. -/
theorem byteAt_eq (text : String) (i : Nat) : byteAt text i = ((utf8 text)[i]?).getD 0 := by
  rw [byteAt, utf8, Array.getElem?_toList]

theorem byteAt_of_le {text : String} {i : Nat} (h : text.utf8ByteSize ≤ i) : byteAt text i = 0 := by
  rw [byteAt_eq, List.getElem?_eq_none (utf8ByteSize_eq text ▸ h), Option.getD_none]

theorem fromUTF8?_toByteArray (text : String) : String.fromUTF8? text.toByteArray = some text := by
  rw [String.fromUTF8?, dif_pos text.isValidUTF8]
  rfl

section Split

variable {text : String} {before mid rest : List Char} {c : Char}

theorem utf8_of_split (h : text.toList = before ++ rest) :
    utf8 text = utf8Chars before ++ utf8Chars rest := by
  rw [utf8_eq_flatMap, h]
  exact List.flatMap_append

/-- The size of a text is that of its two parts. -/
theorem size_of_split (h : text.toList = before ++ rest) :
    text.utf8ByteSize = (utf8Chars before).length + (utf8Chars rest).length := by
  rw [utf8ByteSize_eq, utf8_of_split h, List.length_append]

/-- The bytes after a split are those of the characters there.  Whatever is in front only moves
them. -/
theorem byteAt_of_split (h : text.toList = before ++ rest) (j : Nat) :
    byteAt text ((utf8Chars before).length + j) = ((utf8Chars rest)[j]?).getD 0 := by
  rw [byteAt_eq, utf8_of_split h, List.getElem?_append_right (Nat.le_add_right _ _),
    Nat.add_sub_cancel_left]

theorem byteAt_first (h : text.toList = before ++ c :: rest) {b : UInt8} {bs : List UInt8}
    (hc : String.utf8EncodeChar c = b :: bs) : byteAt text (utf8Chars before).length = b := by
  have hbyte := byteAt_of_split h 0
  rwa [utf8Chars_cons, hc] at hbyte

/-- No byte at a split continues a character. -/
theorem isContinuation_byteAt_of_split (h : text.toList = before ++ rest) :
    isContinuation (byteAt text (utf8Chars before).length) = false := by
  cases rest with
  | nil =>
    rw [byteAt_of_le (by rw [size_of_split h]; exact Nat.le_refl _)]
    decide
  | cons c rest =>
    obtain ⟨b, bs, hc, hencoded⟩ := exists_encoded c
    rw [byteAt_first h hc]
    exact hencoded.continuation.1

/-- **There is a boundary between two characters.** The converse is not needed. -/
theorem isBoundary_of_split (h : text.toList = before ++ rest) :
    isBoundary text (utf8Chars before).length = true := by
  have hsize := size_of_split h
  rw [isBoundary, isContinuation_byteAt_of_split h, Bool.or_eq_true, Bool.not_false, Bool.and_true,
    beq_iff_eq, decide_eq_true_eq]
  omega

/-- **A slice between two boundaries is the text of the characters there.** -/
theorem slice?_of_split (h : text.toList = before ++ (mid ++ rest)) :
    slice? text (utf8Chars before).length (utf8Chars (before ++ mid)).length =
      some (String.ofList mid) := by
  have hmid : text.toList = (before ++ mid) ++ rest := by rw [h, List.append_assoc]
  have hsize := size_of_split hmid
  have hlength : (utf8Chars (before ++ mid)).length =
      (utf8Chars before).length + (utf8Chars mid).length := by
    rw [utf8Chars_append, List.length_append]
  have hbounds : (utf8Chars before).length ≤ (utf8Chars (before ++ mid)).length ∧
      (utf8Chars (before ++ mid)).length ≤ text.utf8ByteSize := by omega
  have hbytes : text.toUTF8.extract (utf8Chars before).length (utf8Chars (before ++ mid)).length =
      (String.ofList mid).toByteArray := by
    have hutf8 : utf8 (String.ofList mid) = utf8Chars mid := by
      rw [utf8_eq_flatMap, String.toList_ofList, utf8Chars]
    refine ByteArray.ext (Array.toList_inj.1 ?_)
    rw [ByteArray.data_extract, Array.toList_extract, ← utf8, utf8_of_split h, hlength,
      List.extract_eq_take_drop, List.drop_left, Nat.add_sub_cancel_left, utf8Chars_append,
      List.take_left]
    exact hutf8.symm
  rw [slice?, hbytes,
    if_pos ⟨hbounds.1, hbounds.2, isBoundary_of_split h, isBoundary_of_split hmid⟩]
  exact fromUTF8?_toByteArray _

end Split

end ByteReader

end MonkeyLang
