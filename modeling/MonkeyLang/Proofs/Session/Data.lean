import MonkeyLang.Proofs.Eval.HashLiteral
import MonkeyLang.Proofs.Parse.Defects
import MonkeyLang.Proofs.Program.RoundTrip
import MonkeyLang.Proofs.Session.Meaning
import MonkeyLang.Proofs.Value.Equal

/-!
# Printed data reads back

Data is built from integers, truth values, arrays, and hashes whose keys are integers and truth
values (`Value.IsData`).  The text of a datum is a program, and running it gives the datum back:

* A negative integer is read as a sign in front of a numeral, and negating the number gives it
  back.
* The elements of an array and the pairs of a hash are read as they are listed.
* The pairs of a hash are listed in the order of their texts, but a hash is a finite map, so that
  any order gives it back.

There is one exception.  The numeral of the smallest integer without its sign is too large by one,
so that a text with it is not read at all.  `run_display` is the whole statement.

`Written` goes through the construction of a text.  It follows the tokens that the text lays out
as, together with what they are read as, so that each form of data needs a look at its brackets and
separators only.

## What is left out

Strings are written without quotes when a value is printed, so their texts are programs of another
kind, or none.  Functions print as literals, and these evaluate to functions with another origin
and another scope.  `null` prints as a name that nothing binds.  None of them is data in the sense
of this file, neither as an element nor as a key.

## Read or spoilt

Both answers have to be carried through the construction, because the text of an array is made from
those of its elements whether or not one of them can be read.  A text is `spoilt` if the numeral
that is too large occurs in it.  Then all one needs to know of its tokens is that this numeral is
among them; an error about a defective token is reported whatever is around it
(`lexicalErrors_eq_defects`).  Otherwise the tokens are read as an expression, with any tokens of
the same kinds, at any places.

The scope in which a text is run does not matter, even if it binds names, since there are no names
in the text.
-/

set_option autoImplicit false

namespace MonkeyLang

open Grammar

/-! ## Maps in any order

Hashes list their pairs by key, and their texts list them by text.  Neither order is part of what a
map is. -/

namespace Dict

variable {κ ν : Type}

theorem keys_eq_of_forall₂ {R : ν → ν → Prop} {entries others : List (κ × ν)}
    (h : List.Forall₂ (fun p q ↦ q.1 = p.1 ∧ R p.2 q.2) entries others) :
    keys others = keys entries := by
  induction h with
  | nil => rfl
  | cons hpq _ ih => exact congrArg₂ List.cons hpq.1 ih

section

variable [DecidableEq κ]

/-- With different keys, the order of the pairs does not matter. -/
theorem Distinct.get?_eq_of_perm {entries others : List (κ × ν)} (h : Distinct entries)
    (hperm : others.Perm entries) (key : κ) : get? entries key = get? others key := by
  have hothers : Distinct others := (hperm.map Prod.fst).nodup_iff.2 h
  ext value
  rw [h.get?_eq_some_iff, hothers.get?_eq_some_iff, hperm.mem_iff]

/-- Where no key comes twice, the last pair with a key is the first one. -/
theorem Distinct.get?_eq_last? {entries : List (κ × ν)} (h : Distinct entries) (key : κ) :
    get? entries key = last? entries key := by
  induction entries with
  | nil => rfl
  | cons p entries ih =>
    obtain ⟨k, v⟩ := p
    obtain ⟨hk, hrest⟩ := List.nodup_cons.1 h
    rw [last?_cons, ← ih hrest, get?]
    split
    · rename_i heq
      rw [get?_eq_none_iff.2 (heq ▸ hk), Option.none_or]
    · rw [Option.or_none]

end

/-- What pairs are inserted does not disturb the order of keys. -/
theorem increasing_insertAll [DecidableEq κ] [LT κ] [DecidableLT κ] [IsStrictTotalOrder κ (· < ·)]
    {entries : List (κ × ν)} (h : Increasing entries) (pairs : List (κ × ν)) :
    Increasing (insertAll entries pairs) := by
  induction pairs generalizing entries with
  | nil => exact h
  | cons p pairs ih => exact ih (h.insert p.1 p.2)

end Dict

/-! ## Data -/

namespace Value

/-- Integers and truth values, and arrays and hashes of data.  The keys of a hash are different, and
they are integers and truth values, which is to say data. -/
inductive IsData : Value → Prop
  | int (n : Int64) : IsData (.int n)
  | bool (b : Bool) : IsData (.bool b)
  | array {vs : List Value} (h : ∀ v ∈ vs, IsData v) : IsData (.array vs)
  | hash {es : List (Key × Value)} (hdistinct : Dict.Distinct es)
      (hkeys : ∀ p ∈ es, IsData p.1.toValue) (h : ∀ p ∈ es, IsData p.2) : IsData (.hash es)

/-- The integer occurs in the value, as a key or not.  Keys are data too, and a key that is the
smallest integer spoils a text like any other integer. -/
inductive Mentions (n : Int64) : Value → Prop
  | int : Mentions n (.int n)
  | element {vs : List Value} {v : Value} (hv : v ∈ vs) (h : Mentions n v) : Mentions n (.array vs)
  | key {es : List (Key × Value)} {p : Key × Value} (hp : p ∈ es) (h : Mentions n p.1.toValue) :
      Mentions n (.hash es)
  | value {es : List (Key × Value)} {p : Key × Value} (hp : p ∈ es) (h : Mentions n p.2) :
      Mentions n (.hash es)

@[simp]
theorem mentions_int {m n : Int64} : (Value.int n).Mentions m ↔ m = n := by
  constructor
  · rintro ⟨⟩
    rfl
  · rintro rfl
    exact .int

@[simp]
theorem not_mentions_bool {n : Int64} {b : Bool} : ¬ (Value.bool b).Mentions n := nofun

/-- In an array an integer occurs if it occurs in an element. -/
@[simp]
theorem mentions_array {n : Int64} {vs : List Value} :
    (Value.array vs).Mentions n ↔ ∃ v ∈ vs, v.Mentions n := by
  constructor
  · rintro (_ | ⟨hv, h⟩)
    exact ⟨_, hv, h⟩
  · rintro ⟨v, hv, h⟩
    exact .element hv h

/-- The integer occurs in the key or in the value of a pair. -/
def PairMentions (n : Int64) (p : Key × Value) : Prop := p.1.toValue.Mentions n ∨ p.2.Mentions n

@[simp]
theorem mentions_hash {n : Int64} {es : List (Key × Value)} :
    (Value.hash es).Mentions n ↔ ∃ p ∈ es, PairMentions n p := by
  constructor
  · rintro (_ | _ | ⟨hp, h⟩ | ⟨hp, h⟩)
    · exact ⟨_, hp, .inl h⟩
    · exact ⟨_, hp, .inr h⟩
  · rintro ⟨p, hp, h | h⟩
    · exact .key hp h
    · exact .value hp h

/-- A key is equal to itself only. -/
theorem Equal.eq_toValue {k : Key} {w : Value} (h : k.toValue.Equal w) : w = k.toValue := by
  cases k <;> cases h <;> rfl

/-- A key prints as the value that it is. -/
theorem display_toValue (k : Key) : k.toValue.display = k.display := by
  cases k <;> rfl

end Value

/-! ## Texts and what they are read as -/

/-- The numeral of the smallest integer, without the sign. -/
def tooLarge : String := "9223372036854775808"

/-- The text lays out as these tokens, in front of anything that does not make them longer.  They
are read as said, unless the numeral that is too large is among them, which it is if `spoilt`.  The
proposition `spoilt` says when the text has the numeral that is too large.  If it does, nothing is
claimed of how the tokens are read. -/
structure Written (text : List Char) (kinds : List TokenKind) (spoilt : Prop)
    (readAs : List Token → Prop) : Prop where
  layout : ∀ {later : List TokenKind} {rest : List Char}, Delimited rest → Layout later rest →
    Layout (kinds ++ later) (text ++ rest)
  blamed : spoilt → .int tooLarge ∈ kinds
  read : ¬ spoilt → ∀ xs : List Token, xs.map Token.kind = kinds → readAs xs

namespace Written

variable {a b : List Char} {as bs : List TokenKind} {p q : Prop} {A B : List Token → Prop}

theorem imp (h : Written a as p A) (hspoilt : q ↔ p) (hread : ∀ xs, A xs → B xs) :
    Written a as q B where
  layout := h.layout
  blamed hq := h.blamed (hspoilt.1 hq)
  read hq xs hxs := hread xs (h.read (fun hp ↦ hq (hspoilt.2 hp)) xs hxs)

/-- Two texts with a comma or a colon between them.  Neither of the two signs makes the token
before it longer, nor does the space behind it. -/
theorem beside (ha : Written a as p A) (hb : Written b bs q B) {s : Symbol}
    (hs : s = .comma ∨ s = .colon) :
    Written (a ++ (s.spelling.toList ++ ' ' :: b)) (as ++ .symbol s :: bs) (p ∨ q)
      fun xs ↦ ∃ ys t zs, xs = ys ++ t :: zs ∧ t.kind = .symbol s ∧ A ys ∧ B zs where
  layout {later rest} hrest hlater := by
    have hb' := (hb.layout hrest hlater).blank
    rw [List.append_assoc, List.append_assoc, List.append_assoc, List.cons_append, List.cons_append]
    rcases hs with rfl | rfl
    · exact ha.layout (delimited_cons (by decide) _) (.next trivial trivial hb')
    · exact ha.layout (delimited_cons (by decide) _) (.next trivial trivial hb')
  blamed := by
    rintro (hp | hq)
    · exact List.mem_append_left _ (ha.blamed hp)
    · exact List.mem_append_right _ (List.mem_cons_of_mem _ (hb.blamed hq))
  read hneither xs hxs := by
    obtain ⟨ys, _, rfl, hys, hxs⟩ := List.map_eq_append_iff.1 hxs
    obtain ⟨t, zs, rfl, ht, hzs⟩ := List.map_eq_cons_iff.1 hxs
    obtain ⟨hp, hq⟩ := not_or.1 hneither
    exact ⟨ys, t, zs, rfl, ht, ha.read hp ys hys, hb.read hq zs hzs⟩

/-- A text in brackets or in braces. -/
theorem enclosed (ha : Written a as p A) {l r : Symbol}
    (h : (l = .leftBracket ∧ r = .rightBracket) ∨ (l = .leftBrace ∧ r = .rightBrace)) :
    Written (l.spelling.toList ++ (a ++ r.spelling.toList)) (.symbol l :: (as ++ [.symbol r])) p
      fun xs ↦ ∃ t ys close, xs = t :: (ys ++ [close]) ∧ t.kind = .symbol l ∧
        close.kind = .symbol r ∧ A ys where
  layout {later rest} hrest hlater := by
    rw [List.append_assoc, List.append_assoc, List.cons_append, List.append_assoc]
    rcases h with ⟨rfl, rfl⟩ | ⟨rfl, rfl⟩
    · refine .next trivial trivial (ha.layout (delimited_cons (by decide) _) ?_)
      exact .next trivial trivial hlater
    · refine .next trivial trivial (ha.layout (delimited_cons (by decide) _) ?_)
      exact .next trivial trivial hlater
  blamed hp := List.mem_cons_of_mem _ (List.mem_append_left _ (ha.blamed hp))
  read hp xs hxs := by
    obtain ⟨t, _, rfl, ht, hxs⟩ := List.map_eq_cons_iff.1 hxs
    obtain ⟨ys, _, rfl, hys, hend⟩ := List.map_eq_append_iff.1 hxs
    obtain ⟨close, rfl, hclose⟩ := List.map_eq_singleton_iff.1 hend
    exact ⟨t, ys, close, rfl, ht, hclose, ha.read hp ys hys⟩

/-- Texts with commas between them, of which all are read as `All` says if each is read as `One`
says. -/
theorem exists_separated {α : Type} {text : α → String} {spoilt : α → Prop}
    {One : α → List Token → Prop} {All : List α → List Token → Prop} (hnil : All [] [])
    (hone : ∀ {x xs}, One x xs → All [x] xs)
    (hcons : ∀ {x items xs comma ys}, One x xs → All items ys → items ≠ [] →
      comma.kind = .symbol .comma → All (x :: items) (xs ++ comma :: ys))
    {items : List α} (h : ∀ x ∈ items, ∃ kinds, Written (text x).toList kinds (spoilt x) (One x)) :
    ∃ kinds, Written (separated ", " (items.map text)).toList kinds
      (∃ x ∈ items, spoilt x) (All items) := by
  induction items with
  | nil =>
    refine ⟨[], fun _ hlater ↦ hlater, by simp, fun _ xs hxs ↦ ?_⟩
    obtain rfl := List.map_eq_nil_iff.1 hxs
    exact hnil
  | cons x items ih =>
    obtain ⟨⟨kinds, hx⟩, hitems⟩ := List.forall_mem_cons.1 h
    -- the last one has no comma after it
    cases items with
    | nil => exact ⟨kinds, hx.imp (by simp) fun _ ↦ hone⟩
    | cons next items =>
      obtain ⟨later, hlater⟩ := ih hitems
      have hboth := (hx.beside hlater (.inl rfl)).imp (B := All (x :: next :: items))
        (List.exists_mem_cons_iff ..) fun _ ⟨ys, t, zs, hxs, ht, hys, hzs⟩ ↦
          hxs ▸ hcons hys hzs (List.cons_ne_nil _ _) ht
      simp only [List.map_cons, separated_cons_cons, String.toList_append, List.append_assoc]
        at hboth ⊢
      exact ⟨_, hboth⟩

end Written

/-! ## Numbers and truth values -/

namespace Value

/-- The tokens are an expression that comes to a value equal to this one wherever it is evaluated,
and changes nothing.  The value that comes out is equal to the one that was printed, though its
hashes may list their pairs in another order. -/
def ReadAs (v : Value) (xs : List Token) : Prop :=
  ∃ e w, Phrase .unary xs e ∧ (∀ frame m, e.ComesTo frame m (.done w m)) ∧ v.Equal w ∧ w.Ordered

/-- The text of the value lays out as tokens that are read as the value, unless the smallest integer
occurs in it. -/
def IsWritten (v : Value) : Prop :=
  ∃ kinds, Written v.display.toList kinds (v.Mentions Int64.minValue) v.ReadAs

theorem isWritten_bool (b : Bool) : (Value.bool b).IsWritten := by
  refine ⟨[.keyword (if b then .kwTrue else .kwFalse)], ?_, nofun, fun _ xs hxs ↦ ?_⟩
  · intro later rest hrest hlater
    cases b
    · exact .keyword .kwFalse hrest hlater
    · exact .keyword .kwTrue hrest hlater
  · obtain ⟨x, rfl, hx⟩ := List.map_eq_singleton_iff.1 hxs
    have hphrase : Phrase .atom [x] (.bool x b) := by
      cases b
      · exact .boolFalse hx
      · exact .boolTrue hx
    exact ⟨_, _, hphrase.loosen (by decide), fun _ _ ↦ .succ (.of_forall fun _ ↦ rfl), .bool b,
      .bool b⟩

/-- A numeral of a number that fits comes to the number. -/
theorem readAs_ofNat {n : Nat} (hn : n < 2 ^ 63) {x : Token}
    (hx : x.kind = .int (Decimal.ofNat n)) : Phrase .atom [x] (.int x (Int64.ofNat n)) := by
  have hvalue := Decimal.value_ofNat n
  have hint := Phrase.int hx (by rw [hvalue]; exact hn)
  rwa [hvalue] at hint

/-- A number that is not negative is the word of its size. -/
theorem ofNat_natAbs_of_nonneg {n : Int64} (h : 0 ≤ n.toInt) : Int64.ofNat n.toInt.natAbs = n := by
  rw [← Int64.ofInt_eq_ofNat, Int.natAbs_of_nonneg h, Int64.ofInt_toInt]

theorem neg_ofNat_natAbs_of_neg {n : Int64} (h : n.toInt < 0) :
    -Int64.ofNat n.toInt.natAbs = n := by
  rw [← Int64.ofInt_eq_ofNat, ← Int64.ofInt_neg, Int.ofNat_natAbs_of_nonpos (Int.le_of_lt h),
    Int.neg_neg, Int64.ofInt_toInt]

/-- Only the smallest integer is too large without its sign. -/
theorem natAbs_toInt_lt {n : Int64} (h : n ≠ Int64.minValue) : n.toInt.natAbs < 2 ^ 63 := by
  have hle := n.le_toInt
  have hlt := n.toInt_lt
  have hne : n.toInt ≠ -2 ^ 63 := fun heq ↦ h (Int64.toInt_inj.1 heq)
  omega

/-- A number that is not negative is its numeral, and a negative one has a sign in front.  Read
back, the sign is an operator that is applied to the number. -/
theorem isWritten_int (n : Int64) : (Value.int n).IsWritten := by
  rcases Int.lt_or_le n.toInt 0 with hneg | hnonneg
  · refine ⟨[.symbol .minus, .int (Decimal.ofNat n.toInt.natAbs)], ?_, fun h ↦ ?_,
      fun h xs hxs ↦ ?_⟩
    · intro later rest hrest hlater
      rw [display, Decimal.ofInt, if_pos hneg, String.toList_append, List.append_assoc]
      exact .next trivial trivial (.int (Decimal.wellFormed_ofNat _) hrest hlater)
    · obtain rfl := mentions_int.1 h
      have hnumeral : Decimal.ofNat Int64.minValue.toInt.natAbs = tooLarge := by cbv
      rw [hnumeral]
      exact List.mem_cons_of_mem _ List.mem_cons_self
    · obtain ⟨t, _, rfl, ht, hxs⟩ := List.map_eq_cons_iff.1 hxs
      obtain ⟨x, rfl, hx⟩ := List.map_eq_singleton_iff.1 hxs
      have hlt := natAbs_toInt_lt fun heq ↦ h (mentions_int.2 heq.symm)
      have hnumber : Phrase .unary [x] _ := (readAs_ofNat hlt hx).loosen (by decide)
      refine ⟨_, .int n, .sign (.inr rfl) ht hnumber, fun frame m ↦ ?_, .int n, .int n⟩
      have hvalue : (Expr.int x (Int64.ofNat n.toInt.natAbs)).ComesTo frame m (.done _ m) :=
        .int x _
      have hcomes := hvalue.unary t .minus
      rwa [applyUnary, neg_ofNat_natAbs_of_neg hneg] at hcomes
  · refine ⟨[.int (Decimal.ofNat n.toInt.natAbs)], ?_, fun h ↦ ?_, fun h xs hxs ↦ ?_⟩
    · intro later rest hrest hlater
      rw [display, Decimal.ofInt, if_neg (Int.not_lt.2 hnonneg)]
      exact .int (Decimal.wellFormed_ofNat _) hrest hlater
    · obtain rfl := mentions_int.1 h
      exact absurd hnonneg (by decide)
    · obtain ⟨x, rfl, hx⟩ := List.map_eq_singleton_iff.1 hxs
      have hlt := natAbs_toInt_lt fun heq ↦ h (mentions_int.2 heq.symm)
      have hnumber : Phrase .unary [x] _ := (readAs_ofNat hlt hx).loosen (by decide)
      refine ⟨_, .int n, hnumber, fun frame m ↦ ?_, .int n, .int n⟩
      rw [ofNat_natAbs_of_nonneg hnonneg]
      exact .int x n

/-! ## Arrays -/

/-- The tokens are expressions that come to values equal to these, one after the other. -/
def ReadAsAll (vs : List Value) (xs : List Token) : Prop :=
  ∃ es ws, Listed xs es ∧ (vs ≠ [] → Items xs es) ∧
    (∀ frame m, Settles (fun depth ↦ Eval.expressions depth frame es) m (.done ws m)) ∧
    List.Forall₂ Equal vs ws ∧ ∀ w ∈ ws, w.Ordered

theorem readAsAll_nil : ReadAsAll [] [] :=
  ⟨[], [], .none, (absurd rfl ·), fun _ _ ↦ .succ (.of_forall fun _ ↦ rfl), .nil, by simp⟩

section Arrays

variable {v : Value} {vs : List Value} {xs ys : List Token}

theorem ReadAs.one (h : v.ReadAs xs) : ReadAsAll [v] xs := by
  obtain ⟨e, w, he, hcomes, hequal, hordered⟩ := h
  have hitems : Items xs [e] := .one (he.loosen (by decide))
  refine ⟨[e], [w], .some hitems, fun _ ↦ hitems, fun frame m ↦ ?_, .cons hequal .nil,
    List.forall_mem_singleton.2 hordered⟩
  exact .succ (.bind (hcomes frame m) (.bind (.succ (.of_forall fun _ ↦ rfl))
    (.of_forall fun _ ↦ rfl)))

theorem ReadAs.cons (h : v.ReadAs xs) (hvs : ReadAsAll vs ys) (hne : vs ≠ []) {comma : Token}
    (hcomma : comma.kind = .symbol .comma) : ReadAsAll (v :: vs) (xs ++ comma :: ys) := by
  obtain ⟨e, w, he, hcomes, hequal, hordered⟩ := h
  obtain ⟨es, ws, -, hitems, hsettles, hequals, hall⟩ := hvs
  have hcons : Items (xs ++ comma :: ys) (e :: es) :=
    .cons (he.loosen (by decide)) hcomma (hitems hne)
  refine ⟨e :: es, w :: ws, .some hcons, fun _ ↦ hcons, fun frame m ↦ ?_, .cons hequal hequals,
    List.forall_mem_cons.2 ⟨hordered, hall⟩⟩
  exact .succ (.bind (hcomes frame m) (.bind (hsettles frame m) (.of_forall fun _ ↦ rfl)))

/-- The brackets of the array are still to be added. -/
theorem exists_written_elements (h : ∀ v ∈ vs, v.IsWritten) :
    ∃ kinds, Written (separated ", " (displayAll vs)).toList kinds
      (∃ v ∈ vs, v.Mentions Int64.minValue) (ReadAsAll vs) := by
  rw [displayAll_eq_map]
  exact Written.exists_separated readAsAll_nil ReadAs.one
    (fun hv hvs hne hcomma ↦ hv.cons hvs hne hcomma) h

/-- An array of data that is written is written. -/
theorem isWritten_array (h : ∀ v ∈ vs, v.IsWritten) : (Value.array vs).IsWritten := by
  obtain ⟨kinds, hkinds⟩ := exists_written_elements h
  have harray := (hkinds.enclosed (.inl ⟨rfl, rfl⟩)).imp (B := (Value.array vs).ReadAs)
    mentions_array fun xs ⟨t, ys, close, hxs, ht, hclose, hys⟩ ↦ ?_
  · rw [IsWritten, display, String.toList_append, String.toList_append, List.append_assoc]
    exact ⟨_, harray⟩
  · subst hxs
    obtain ⟨es, ws, hlisted, -, hsettles, hequals, hall⟩ := hys
    refine ⟨.array t es, .array ws, (Phrase.array ht hlisted hclose).loosen (by decide),
      fun frame m ↦ ?_, Equal.array_iff.2 hequals, .array hall⟩
    exact .succ (.bind (hsettles frame m) (.of_forall fun _ ↦ rfl))

end Arrays

/-! ## Hashes

Pairs are written in the order of their texts and inserted in the order of their keys.  Keys come
back as themselves, values come back equal. -/

/-- The tokens are a pair of expressions for the key and the value. -/
def PairReadAs (p : Key × Value) (xs : List Token) : Prop :=
  ∃ ys colon zs, xs = ys ++ colon :: zs ∧ colon.kind = .symbol .colon ∧ p.1.toValue.ReadAs ys ∧
    p.2.ReadAs zs

/-- The tokens are pairs that come to these keys and to values equal to these. -/
def ReadAsPairs (es : List (Key × Value)) (xs : List Token) : Prop :=
  ∃ pairs ps, Paired xs pairs ∧ (∀ frame m, PairsComeTo frame m pairs (.done ps m)) ∧
    List.Forall₂ (fun p q ↦ q.1 = p.1.toValue ∧ p.2.Equal q.2) es ps ∧ ∀ q ∈ ps, q.2.Ordered

theorem readAsPairs_nil : ReadAsPairs [] [] := ⟨[], [], .none, fun _ _ ↦ .nil, .nil, by simp⟩

/-- A key comes to nothing but itself. -/
theorem ReadAs.key {k : Key} {xs : List Token} (h : k.toValue.ReadAs xs) :
    ∃ e, Phrase .equality xs e ∧ ∀ frame m, e.ComesTo frame m (.done k.toValue m) := by
  obtain ⟨e, w, he, hcomes, hequal, -⟩ := h
  rw [hequal.eq_toValue] at hcomes
  exact ⟨e, he.loosen (by decide), hcomes⟩

/-- A key is of a type that can be a key. -/
theorem isKey_toValue (k : Key) : k.toValue.type.isKey = true := by
  cases k <;> rfl

section Hashes

variable {p : Key × Value} {es : List (Key × Value)} {xs ys : List Token}

theorem PairReadAs.one (h : PairReadAs p xs) : ReadAsPairs [p] xs := by
  obtain ⟨ys, colon, zs, rfl, hcolon, hkey, e, w, he, hcomes, hequal, hordered⟩ := h
  obtain ⟨key, hkey, hcomesKey⟩ := hkey.key
  refine ⟨[(key, e)], [(p.1.toValue, w)], .one hkey hcolon (he.loosen (by decide)),
    fun frame m ↦ ?_, .cons ⟨rfl, hequal⟩ .nil, List.forall_mem_singleton.2 hordered⟩
  exact .pair (hcomesKey frame m) (isKey_toValue _) (hcomes frame m) .nil

theorem PairReadAs.cons (h : PairReadAs p xs) (hes : ReadAsPairs es ys) {comma : Token}
    (hcomma : comma.kind = .symbol .comma) : ReadAsPairs (p :: es) (xs ++ comma :: ys) := by
  obtain ⟨xs, colon, zs, rfl, hcolon, hkey, e, w, he, hcomes, hequal, hordered⟩ := h
  obtain ⟨key, hkey, hcomesKey⟩ := hkey.key
  obtain ⟨pairs, ps, hpaired, hpairs, hequals, hall⟩ := hes
  rw [List.append_assoc, List.cons_append]
  refine ⟨(key, e) :: pairs, (p.1.toValue, w) :: ps,
    .cons hkey hcolon (he.loosen (by decide)) hcomma hpaired, fun frame m ↦ ?_,
    .cons ⟨rfl, hequal⟩ hequals, List.forall_mem_cons.2 ⟨hordered, hall⟩⟩
  exact .pair (hcomesKey frame m) (isKey_toValue _) (hcomes frame m) (hpairs frame m)

/-- The text of a pair. -/
def pairText (p : Key × Value) : String := p.1.display ++ ": " ++ p.2.display

theorem exists_written_pair (hkey : p.1.toValue.IsWritten) (hvalue : p.2.IsWritten) :
    ∃ kinds, Written (pairText p).toList kinds (PairMentions Int64.minValue p) (PairReadAs p) := by
  obtain ⟨as, hkey⟩ := hkey
  obtain ⟨bs, hvalue⟩ := hvalue
  have hboth := hkey.beside hvalue (.inr rfl)
  rw [display_toValue] at hboth
  rw [pairText, String.toList_append, String.toList_append, List.append_assoc]
  exact ⟨_, hboth⟩

theorem exists_written_pairs (h : ∀ p ∈ es, p.1.toValue.IsWritten ∧ p.2.IsWritten) :
    ∃ kinds, Written (separated ", " (es.map pairText)).toList kinds
      (∃ p ∈ es, PairMentions Int64.minValue p) (ReadAsPairs es) := by
  refine Written.exists_separated readAsPairs_nil PairReadAs.one
    (fun hp hes _ hcomma ↦ hp.cons hes hcomma) fun p hp ↦ ?_
  exact exists_written_pair (h p hp).1 (h p hp).2

/-- The pairs in the order of their texts.  This is how a hash is printed, and so it is the order
in which its pairs are read back. -/
def inTextOrder (es : List (Key × Value)) : List (Key × Value) :=
  es.mergeSort fun p q ↦ decide (pairText p ≤ pairText q)

theorem inTextOrder_perm (es : List (Key × Value)) : (inTextOrder es).Perm es :=
  List.mergeSort_perm ..

theorem sortedTexts_displayEntries (es : List (Key × Value)) :
    sortedTexts (displayEntries es) = (inTextOrder es).map pairText := by
  rw [displayEntries_eq_map]
  have hsame : ∀ p ∈ es, ∀ q ∈ es, decide (pairText p ≤ pairText q) =
      decide (pairText p ≤ pairText q) := fun _ _ _ _ ↦ rfl
  exact (List.map_mergeSort (f := pairText) (s := fun a b ↦ decide (a ≤ b)) hsame).symm

theorem forall₂_keyed {ps : List (Value × Value)}
    (h : List.Forall₂ (fun p q ↦ q.1 = p.1.toValue ∧ p.2.Equal q.2) es ps) :
    List.Forall₂ (fun p q ↦ q.1 = p.1 ∧ p.2.Equal q.2) es (keyed ps) := by
  induction h with
  | nil => exact .nil
  | @cons p q es ps hpq _ ih =>
    obtain ⟨v, w⟩ := q
    obtain ⟨rfl, hequal⟩ := hpq
    rw [keyed_cons (key?_toValue p.1)]
    exact .cons ⟨rfl, hequal⟩ ih

/-- Pairs with different keys make a hash in whatever order they come. -/
theorem equal_hash_keyed (hdistinct : Dict.Distinct es) {fs : List (Key × Value)}
    (hperm : fs.Perm es) {ps : List (Value × Value)}
    (hps : List.Forall₂ (fun p q ↦ q.1 = p.1.toValue ∧ p.2.Equal q.2) fs ps) :
    (Value.hash es).Equal (.hash (Dict.insertAll [] (keyed ps))) := by
  have hkeyed := forall₂_keyed hps
  have hfs : Dict.Distinct fs := (hperm.map Prod.fst).nodup_iff.2 hdistinct
  have hlast : Dict.Distinct (keyed ps) := by
    rw [Dict.Distinct, Dict.keys_eq_of_forall₂ hkeyed]
    exact hfs
  refine Equal.hash_iff.2 fun k ↦ ?_
  rw [Dict.get?_insertAll, ← hlast.get?_eq_last?, Dict.get?, Option.or_none,
    hdistinct.get?_eq_of_perm hperm]
  exact Dict.get?_of_forall₂ hkeyed k

/-- Evaluation lists the pairs by their keys. -/
theorem ordered_hash_keyed {ps : List (Value × Value)} (h : ∀ q ∈ ps, q.2.Ordered) :
    (Value.hash (Dict.insertAll [] (keyed ps))).Ordered := by
  refine .hash (Dict.increasing_insertAll .nil _) fun p hp ↦ ?_
  obtain ⟨q, hq, hp⟩ := List.mem_filterMap.1 ((Dict.mem_insertAll hp).resolve_left List.not_mem_nil)
  obtain ⟨k, -, rfl⟩ := Option.map_eq_some_iff.1 hp
  exact h q hq

/-- Pairs that are read back in the order of their texts are inserted in key order, so that an
equal hash comes out. -/
theorem isWritten_hash (hdistinct : Dict.Distinct es)
    (h : ∀ p ∈ es, p.1.toValue.IsWritten ∧ p.2.IsWritten) : (Value.hash es).IsWritten := by
  have hperm := inTextOrder_perm es
  have hpairs : ∀ p ∈ inTextOrder es, p.1.toValue.IsWritten ∧ p.2.IsWritten :=
    fun p hp ↦ h p (hperm.mem_iff.1 hp)
  obtain ⟨kinds, hkinds⟩ := exists_written_pairs hpairs
  have hspoilt : (Value.hash es).Mentions Int64.minValue ↔
      ∃ p ∈ inTextOrder es, PairMentions Int64.minValue p := by
    simp only [mentions_hash, hperm.mem_iff]
  have hhash := (hkinds.enclosed (.inr ⟨rfl, rfl⟩)).imp (B := (Value.hash es).ReadAs)
    hspoilt fun xs ⟨t, ys, close, hxs, ht, hclose, hys⟩ ↦ ?_
  · rw [IsWritten, display, sortedTexts_displayEntries, String.toList_append,
      String.toList_append, List.append_assoc]
    exact ⟨_, hhash⟩
  · subst hxs
    obtain ⟨pairs, ps, hpaired, hpairs, hequals, hall⟩ := hys
    refine ⟨.hash t pairs, .hash (Dict.insertAll [] (keyed ps)),
      (Phrase.hash ht hpaired hclose).loosen (by decide), fun frame m ↦ (hpairs frame m).hash t,
      equal_hash_keyed hdistinct hperm hequals, ordered_hash_keyed hall⟩

end Hashes

/-- **The text of a datum is written with tokens that are read as the datum**, unless the smallest
integer occurs in it.  By induction on the datum, with one of the lemmas above for each way to make
one. -/
theorem IsData.isWritten {v : Value} (h : v.IsData) : v.IsWritten := by
  induction h with
  | int n => exact isWritten_int n
  | bool b => exact isWritten_bool b
  | array _ ih => exact isWritten_array ih
  | hash hdistinct _ _ ihkeys ih =>
    exact isWritten_hash hdistinct fun p hp ↦ ⟨ihkeys p hp, ih p hp⟩

end Value

/-! ## Running the text -/

/-- Tokens that are an expression are run as that expression. -/
theorem settles_run_of_phrase {text : String} {e : Expr} {w : Value}
    (he : Phrase .unary (Cursor.ofText text).stream.pending e)
    (hcomes : ∀ frame m, e.ComesTo frame m (.done w m)) (scope : ScopeId) (m : Machine) :
    Settles (fun depth ↦ run depth scope text) m (.done w { m with units := m.units + 1 }) := by
  have hend : ¬ Continues (Token.eof (Cursor.ofText text).stream.finish).kind := by
    show ¬ Continues .eof
    rw [continues_iff]
    decide
  have hsentence : Sentence ((Cursor.ofText text).stream.pending ++ [])
      (following [] (Token.eof (Cursor.ofText text).stream.finish)) (.exprStmt e.token e) :=
    .expression (he.loosen (by decide)) (.inr ⟨rfl, hend⟩)
  have hsentences := Sentences.cons hsentence .none
  rw [List.append_nil, List.append_nil] at hsentences
  have hderives : Derives (tokenize text) ⟨[.exprStmt e.token e]⟩ := ⟨_, _, rfl, rfl, hsentences⟩
  refine settles_run (parseProgram_of_derives hderives)
    (o := .done w { m with units := m.units + 1 }) ?_
  obtain ⟨least, h⟩ := Stmt.ComesTo.exprStmt
    (hcomes ⟨scope, m.units⟩ { m with units := m.units + 1 }) e.token
  exact ⟨least, h⟩

/-- A text with the numeral that is too large is not read. -/
theorem invalidInteger_mem_errors {text : String}
    (h : .int tooLarge ∈ (Cursor.ofText text).stream.pending.map Token.kind) :
    ∃ position, .invalidInteger tooLarge position ∈ (parse text).errors := by
  obtain ⟨t, ht, hkind⟩ := List.mem_map.1 h
  have hvalue : Decimal.value tooLarge.toList > Nat.pow 2 63 - 1 := by decide
  have hdefect : t.defect? = some (.invalidInteger tooLarge t.position) := by
    rw [Token.defect?, hkind]
    exact if_pos hvalue
  refine ⟨t.position, List.mem_of_mem_filter (p := ParseError.isLexical) ?_⟩
  rw [parse, Stream.lexicalErrors_parse _ (Cursor.ofText text).kind_ne_eof_of_mem_pending]
  exact List.mem_filterMap.2 ⟨t, ht, hdefect⟩

/-- **Printed data reads back**, in whatever scope its text is run.

* The run gives a value equal to the datum if and only if the smallest integer does not occur in it.
  Nothing else is changed, and if the hashes of the datum are in key order then the host finds the
  two values equal.
* If the smallest integer occurs in it, the text is not run at all, and one of the errors says that
  its numeral without the sign is no integer. -/
theorem run_display {v : Value} (hv : v.IsData) (scope : ScopeId) (m : Machine) :
    ((∃ w m', Settles (fun depth ↦ run depth scope v.display) m (.done w m') ∧ v.Equal w) ↔
      ¬ v.Mentions Int64.minValue) ∧
    (¬ v.Mentions Int64.minValue →
      ∃ w, Settles (fun depth ↦ run depth scope v.display) m
          (.done w { m with units := m.units + 1 }) ∧
        v.Equal w ∧ (v.Ordered → v.same w = true)) ∧
    (v.Mentions Int64.minValue →
      ∃ errors position, (∀ depth, run depth scope v.display m = .stop (.parse errors) m) ∧
        .invalidInteger "9223372036854775808" position ∈ errors) := by
  obtain ⟨kinds, hwritten⟩ := hv.isWritten
  have hlayout := hwritten.layout delimited_nil (.finish (by simp))
  rw [List.append_nil, List.append_nil, layout_iff] at hlayout
  have hread (h : ¬ v.Mentions Int64.minValue) :
      ∃ w, Settles (fun depth ↦ run depth scope v.display) m
          (.done w { m with units := m.units + 1 }) ∧
        v.Equal w ∧ (v.Ordered → v.same w = true) := by
    obtain ⟨e, w, he, hcomes, hequal, hordered⟩ := hwritten.read h _ hlayout
    exact ⟨w, settles_run_of_phrase he hcomes scope m, hequal,
      fun hordered' ↦ (hordered'.same_iff hordered).2 hequal⟩
  have hblamed (h : v.Mentions Int64.minValue) :
      ∃ errors position, (∀ depth, run depth scope v.display m = .stop (.parse errors) m) ∧
        .invalidInteger "9223372036854775808" position ∈ errors := by
    obtain ⟨position, hmem⟩ := invalidInteger_mem_errors (hlayout ▸ hwritten.blamed h)
    have herror := parseProgram_eq_error (List.ne_nil_of_mem hmem)
    exact ⟨_, position, fun depth ↦ run_of_error herror depth scope m, hmem⟩
  refine ⟨⟨?_, fun h ↦ ?_⟩, hread, hblamed⟩
  · rintro ⟨w, m', hsettles, -⟩ h
    obtain ⟨errors, position, hrun, -⟩ := hblamed h
    exact nomatch hsettles.unique (.of_forall hrun)
  · obtain ⟨w, hsettles, hequal, -⟩ := hread h
    exact ⟨w, _, hsettles, hequal⟩

/-- The texts of these pairs are in another order than their keys, and the numbers are read as they
were, the negative one with its sign.  A key that is the smallest integer is not read. -/
theorem run_display_pairs :
    (∃ v w : Value, ∃ m, v.display = "\x7b10: false, 9: [-5, true]\x7d" ∧
      Settles (fun depth ↦ run depth 0 v.display) .initial (.done w m) ∧ v.same w = true) ∧
      ∃ errors position,
        run 9 0 (Value.hash [(.int Int64.minValue, .bool true)]).display .initial =
          .stop (.parse errors) .initial ∧
        .invalidInteger "9223372036854775808" position ∈ errors := by
  refine ⟨?_, ?_⟩
  · let es : List (Key × Value) :=
      [(.int 9, .array [.int (-5), .bool true]), (.int 10, .bool false)]
    have helements : ∀ u ∈ [Value.int (-5), .bool true], u.IsData ∧ u.Ordered :=
      List.forall_mem_cons.2 ⟨⟨.int _, .int _⟩, List.forall_mem_singleton.2 ⟨.bool _, .bool _⟩⟩
    have hincreasing : Dict.Increasing es := List.pairwise_pair.2 (by decide)
    have hdata : (Value.hash es).IsData := by
      refine .hash hincreasing.distinct ?_ ?_
      · exact List.forall_mem_cons.2 ⟨.int _, List.forall_mem_singleton.2 (.int _)⟩
      · exact List.forall_mem_cons.2
          ⟨.array fun u hu ↦ (helements u hu).1, List.forall_mem_singleton.2 (.bool _)⟩
    have hordered : (Value.hash es).Ordered := by
      refine .hash hincreasing (List.forall_mem_cons.2 ⟨?_, List.forall_mem_singleton.2 (.bool _)⟩)
      exact .array fun u hu ↦ (helements u hu).2
    have hmentions : ¬ (Value.hash es).Mentions Int64.minValue := by
      have hnine : Int64.minValue ≠ 9 := by decide
      have hten : Int64.minValue ≠ 10 := by decide
      simp [es, Value.PairMentions, Key.toValue, hnine, hten]
    have hentries : displayEntries es = ["9: [-5, true]", "10: false"] := by decide +kernel
    have hsorted : sortedTexts ["9: [-5, true]", "10: false"] = ["10: false", "9: [-5, true]"] :=
      (sortedTexts_eq_of_perm (.swap ..)).trans (List.mergeSort_of_pairwise (by simp))
    obtain ⟨-, hread, -⟩ := run_display hdata 0 .initial
    obtain ⟨w, hsettles, -, hsame⟩ := hread hmentions
    refine ⟨.hash es, w, _, ?_, hsettles, hsame hordered⟩
    rw [Value.display, hentries, hsorted]
    rfl
  · have hdata : (Value.hash [(.int Int64.minValue, .bool true)]).IsData := by
      refine .hash (List.nodup_singleton _) ?_ ?_
      · exact List.forall_mem_singleton.2 (.int _)
      · exact List.forall_mem_singleton.2 (.bool _)
    have hmentions : (Value.hash [(.int Int64.minValue, .bool true)]).Mentions Int64.minValue :=
      .key List.mem_cons_self .int
    obtain ⟨-, -, herrors⟩ := run_display hdata 0 .initial
    obtain ⟨errors, position, hrun, hmem⟩ := herrors hmentions
    exact ⟨errors, position, hrun 9, hmem⟩

end MonkeyLang
