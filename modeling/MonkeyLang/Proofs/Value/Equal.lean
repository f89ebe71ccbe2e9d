import MonkeyLang.Proofs.Value.Throughout
import MonkeyLang.Value.Display
import MonkeyLang.Value.Same

/-!
# Equality from outside

Two values are equal from outside if their data is the same, with hashes compared as maps: the
order in which the pairs of a hash are listed, at any depth, does not count.  `Value.Equal` says
this without reference to an order, and `Value.same` decides it for values whose hashes are in key
order (`Value.Ordered.same_iff`).

Equality is an equivalence, and operations respect it (`Value.Equal.congruence`).  Equal values
have the same text whatever the order of their pairs (`Value.Equal.display_eq`), provided that
functions made from the same literal have the same parameters and the same body: equality does not
look at these.

## Two definitions

`Value.same` is what runs.  It compares the pairs of two hashes one after the other, which is right
only because evaluation lists them by their keys.  `Value.Equal` is what equality is about.  It
asks for the same keys and for equal values under each of them, and makes sense for any lists of
pairs.  The theorem that connects the two has the order as its hypothesis, and with it nothing
about the order is left in what follows.

## Functions

A function is the literal and the scope that it was made from, so two functions with the same text
can be different.  The opposite would be a mishap: functions that are equal and print differently.
Values on their own do not exclude it, since a closure is a record and can be made up with any
body.  `Closure.Agree` is the assumption that the two closures were not, and that all closures in a
session agree is shown where sessions are (`MonkeyLang.Proofs.Session.Equality`).
-/

set_option autoImplicit false

namespace MonkeyLang

/-! ## What is compared -/

theorem Closure.same_iff {f g : Closure} :
    f.same g = true ↔ f.origin = g.origin ∧ f.scope = g.scope := by
  rw [Closure.same, Bool.and_eq_true, beq_iff_eq, beq_iff_eq]

theorem sameValues_iff {vs ws : List Value} :
    sameValues vs ws = true ↔ List.Forall₂ (fun v w ↦ v.same w = true) vs ws := by
  induction vs generalizing ws with
  | nil => cases ws <;> simp [sameValues]
  | cons v vs ih => cases ws <;> simp [sameValues, ih]

theorem sameEntries_iff {es fs : List (Key × Value)} :
    sameEntries es fs = true ↔
      List.Forall₂ (fun p q ↦ q.1 = p.1 ∧ p.2.same q.2 = true) es fs := by
  induction es generalizing fs with
  | nil => cases fs <;> simp [sameEntries]
  | cons p es ih =>
    cases fs with
    | nil => simp [sameEntries]
    | cons q fs =>
      simp only [sameEntries, Bool.and_eq_true, beq_iff_eq, ih, List.forall₂_cons]
      rw [eq_comm]

/-- Relations that agree on the members of two lists relate the lists alike. -/
theorem forall₂_iff_of_mem {α β : Type} {R S : α → β → Prop} {as : List α} {bs : List β}
    (h : ∀ a ∈ as, ∀ b ∈ bs, R a b ↔ S a b) : List.Forall₂ R as bs ↔ List.Forall₂ S as bs := by
  simp only [List.forall₂_iff_zip]
  refine and_congr_right fun _ ↦ ⟨fun hR a b hab ↦ ?_, fun hS a b hab ↦ ?_⟩
  · obtain ⟨ha, hb⟩ := List.of_mem_zip hab
    exact (h a ha b hb).1 (hR hab)
  · obtain ⟨ha, hb⟩ := List.of_mem_zip hab
    exact (h a ha b hb).2 (hS hab)

/-! ## Equality of data -/

namespace Value

/-- Equality of data.  A builtin function is its name, and a function is the literal and the scope
that it was made from.  Arrays are compared by index and hashes by key, and in both cases the parts
have to be equal wherever both values have one.  The usual formulation with `List.Forall₂` is a
lemma, `Value.Equal.array_iff`; it cannot stand in the definition, since the definition would not
be an inductive one with a usable principle of induction. -/
inductive Equal : Value → Value → Prop
  | int (n : Int64) : Equal (.int n) (.int n)
  | bool (b : Bool) : Equal (.bool b) (.bool b)
  | string (text : String) : Equal (.string text) (.string text)
  | array {vs ws : List Value} (hlength : vs.length = ws.length)
      (h : ∀ (i : Nat) v w, vs[i]? = some v → ws[i]? = some w → Equal v w) :
      Equal (.array vs) (.array ws)
  | hash {es fs : List (Key × Value)}
      (hkeys : ∀ k, (Dict.get? es k).isSome = (Dict.get? fs k).isSome)
      (h : ∀ k v w, Dict.get? es k = some v → Dict.get? fs k = some w → Equal v w) :
      Equal (.hash es) (.hash fs)
  | function {f g : Closure} (horigin : f.origin = g.origin) (hscope : f.scope = g.scope) :
      Equal (.function f) (.function g)
  | builtin (b : Builtin) : Equal (.builtin b) (.builtin b)
  | null : Equal .null .null

namespace Equal

/-! ## An equivalence -/

/-- By recursion on the size of the value, as its parts are reached by looking them up. -/
theorem refl : ∀ v : Value, v.Equal v
  | .int n => .int n
  | .bool b => .bool b
  | .string text => .string text
  | .array vs => .array rfl fun _ v _ hv hw ↦ Option.some.inj (hv.symm.trans hw) ▸ refl v
  | .hash es => .hash (fun _ ↦ rfl) fun _ v _ hv hw ↦ Option.some.inj (hv.symm.trans hw) ▸ refl v
  | .function _ => .function rfl rfl
  | .builtin b => .builtin b
  | .null => .null
termination_by v => sizeOf v
decreasing_by
  · have hlt := List.sizeOf_lt_of_mem (List.mem_of_getElem? hv)
    simp only [Value.array.sizeOf_spec]
    omega
  · have hlt := List.sizeOf_lt_of_mem (Dict.mem_of_get? hv)
    simp only [Value.hash.sizeOf_spec, Prod.mk.sizeOf_spec] at hlt ⊢
    omega

theorem symm {v w : Value} (h : v.Equal w) : w.Equal v := by
  induction h with
  | array hlength _ ih => exact .array hlength.symm fun i v w hv hw ↦ ih i w v hw hv
  | hash hkeys _ ih => exact .hash (fun k ↦ (hkeys k).symm) fun k v w hv hw ↦ ih k w v hw hv
  | function horigin hscope => exact .function horigin.symm hscope.symm
  | _ => constructor

/-- By induction on one of the derivations.  A part that is missing in the middle is missing on
both sides. -/
theorem trans {u v w : Value} (h : u.Equal v) (h' : v.Equal w) : u.Equal w := by
  induction h generalizing w with
  | array hlength _ ih =>
    cases h' with
    | array hlength' hrest =>
      refine .array (hlength.trans hlength') fun i u w hu hw ↦ ?_
      obtain ⟨hi, -⟩ := List.getElem?_eq_some_iff.1 hu
      have hv := List.getElem?_eq_getElem (Nat.lt_of_lt_of_eq hi hlength)
      exact ih i u _ hu hv (hrest i _ w hv hw)
  | hash hkeys _ ih =>
    cases h' with
    | hash hkeys' hrest =>
      refine .hash (fun k ↦ (hkeys k).trans (hkeys' k)) fun k u w hu hw ↦ ?_
      obtain ⟨v, hv⟩ := Option.isSome_iff_exists.1 ((hkeys k).symm.trans (by rw [hu]; rfl))
      exact ih k u v hu hv (hrest k v w hv hw)
  | function horigin hscope =>
    cases h' with
    | function horigin' hscope' => exact .function (horigin.trans horigin') (hscope.trans hscope')
  | _ => exact h'

/-! ## Arrays and hashes -/

/-- Arrays are equal if their elements are, one by one. -/
theorem array_iff {vs ws : List Value} :
    (Value.array vs).Equal (.array ws) ↔ List.Forall₂ Equal vs ws := by
  rw [List.forall₂_iff_get]
  constructor
  · rintro (_ | _ | _ | ⟨hlength, h⟩)
    refine ⟨hlength, fun i hi hi' ↦ h i _ _ ?_ ?_⟩
    · exact List.getElem?_eq_getElem hi
    · exact List.getElem?_eq_getElem hi'
  · rintro ⟨hlength, h⟩
    refine .array hlength fun i v w hv hw ↦ ?_
    obtain ⟨hi, rfl⟩ := List.getElem?_eq_some_iff.1 hv
    obtain ⟨hi', rfl⟩ := List.getElem?_eq_some_iff.1 hw
    exact h i hi hi'

/-- Hashes are equal if looking up any key gives equal results.  The order of the pairs is not
seen, which is the difference to the function that decides equality. -/
theorem hash_iff {es fs : List (Key × Value)} :
    (Value.hash es).Equal (.hash fs) ↔
      ∀ k, Option.Rel Equal (Dict.get? es k) (Dict.get? fs k) := by
  simp only [Dict.optionRel_iff]
  constructor
  · rintro (_ | _ | _ | _ | ⟨hkeys, h⟩) k
    exact ⟨hkeys k, h k⟩
  · exact fun h ↦ .hash (fun k ↦ (h k).1) fun k ↦ (h k).2

/-- Indexing and builtin functions respect equality. -/
theorem congruence : Congruence Equal where
  layer h := by
    cases h with
    | array hlength h => exact .array (array_iff.1 (.array hlength h))
    | hash hkeys h => exact .hash (hash_iff.1 (.hash hkeys h))
    | _ => constructor
  int := .int
  array := array_iff.2
  null := .null

end Equal

/-! ## Deciding equality -/

/-- **Values whose hashes are in key order are compared as data.** With keys in order, equal hashes
have the same pairs in the same order, so a comparison pair by pair is enough. -/
theorem Ordered.same_iff {v w : Value} (hv : v.Ordered) (hw : w.Ordered) :
    v.same w = true ↔ v.Equal w := by
  induction hv generalizing w with
  | array hvs ih =>
    cases hw with
    | array hws =>
      rw [same, sameValues_iff, Equal.array_iff]
      exact forall₂_iff_of_mem fun v hv w hw ↦ ih v hv (hws w hw)
    | _ => exact ⟨fun h ↦ (by simp [same] at h), nofun⟩
  | hash hes _ ih =>
    cases hw with
    | hash hfs hws =>
      rw [same, sameEntries_iff, Equal.hash_iff, ← hes.forall₂_iff hfs]
      refine forall₂_iff_of_mem fun p hp q hq ↦ and_congr_right fun _ ↦ ?_
      exact ih p hp (hws q hq)
    | _ => exact ⟨fun h ↦ (by simp [same] at h), nofun⟩
  | function _ =>
    refine ⟨fun h ↦ ?_, fun h ↦ ?_⟩
    · cases w <;> simp [same] at h
      exact .function (Closure.same_iff.1 h).1 (Closure.same_iff.1 h).2
    · cases h with
      | function horigin hscope => exact Closure.same_iff.2 ⟨horigin, hscope⟩
  | _ =>
    refine ⟨fun h ↦ ?_, fun h ↦ ?_⟩
    · cases w <;> simp [same] at h
      first | exact h ▸ .refl _ | exact .refl _
    · cases h
      simp [same]

end Value

/-! ## The text of equal values

The text of a hash lists its pairs in alphabetical order of their texts.  So it is a function of
the set of pairs, and two lists of the same pairs have the same text. -/

theorem displayAll_eq_map (vs : List Value) : displayAll vs = vs.map Value.display := by
  induction vs with
  | nil => rfl
  | cons v vs ih => rw [displayAll, ih, List.map_cons]

theorem displayEntries_eq_map (es : List (Key × Value)) :
    displayEntries es = es.map fun p ↦ p.1.display ++ ": " ++ p.2.display := by
  induction es with
  | nil => rfl
  | cons p es ih => rw [displayEntries, ih, List.map_cons]

/-- The order of texts is total, which is what sorting needs. -/
theorem pairwise_sortedTexts (texts : List String) :
    (sortedTexts texts).Pairwise fun a b ↦ a ≤ b := by
  refine (List.pairwise_mergeSort (fun a b c hab hbc ↦ ?_) (fun a b ↦ ?_) texts).imp
    of_decide_eq_true
  · exact decide_eq_true (le_trans (of_decide_eq_true hab) (of_decide_eq_true hbc))
  · rw [Bool.or_eq_true, decide_eq_true_eq, decide_eq_true_eq]
    exact le_total a b

/-- Sorting forgets the order in which texts were listed. -/
theorem sortedTexts_eq_of_perm {as bs : List String} (h : as.Perm bs) :
    sortedTexts as = sortedTexts bs := by
  have hperm : (sortedTexts as).Perm (sortedTexts bs) :=
    ((List.mergeSort_perm as _).trans h).trans (List.mergeSort_perm bs _).symm
  exact hperm.eq_of_pairwise (fun _ _ _ _ ↦ le_antisymm) (pairwise_sortedTexts as)
    (pairwise_sortedTexts bs)

/-- The texts of the pairs as a function of their keys. -/
theorem Dict.Distinct.displayEntries_eq {es : List (Key × Value)} (h : Dict.Distinct es) :
    displayEntries es = (Dict.keys es).map fun k ↦
      k.display ++ ": " ++ ((Dict.get? es k).map Value.display).getD "" := by
  rw [displayEntries_eq_map, Dict.keys, List.map_map]
  refine List.map_congr_left fun p hp ↦ ?_
  rw [Function.comp_apply, h.get?_eq_some_iff.2 hp]
  rfl

/-- Functions that were made from the same literal have the same parameters and the same body.
Equality of functions only compares origins, so this is an assumption here.  It holds of functions
that were made from the literals of texts, since these are told apart by their places. -/
def Closure.Agree (f g : Closure) : Prop :=
  f.origin = g.origin → f.parameters = g.parameters ∧ f.body = g.body

theorem map_eq_of_isSome_eq {α β : Type} {f : α → β} {x y : Option α}
    (hsome : x.isSome = y.isSome) (h : ∀ a b, x = some a → y = some b → f a = f b) :
    x.map f = y.map f := by
  cases x <;> cases y <;> simp_all

/-- **Equal values have the same text**, in whatever order the pairs of their hashes are listed. -/
theorem Value.Equal.display_eq {v w : Value} (h : v.Equal w) (hv : v.Distinct) (hw : w.Distinct)
    (hagree : ∀ f ∈ v.closures, ∀ g ∈ w.closures, f.Agree g) : v.display = w.display := by
  induction h with
  | @array vs ws hlength _ ih =>
    have hall : vs.map display = ws.map display := by
      refine List.ext_getElem? fun i ↦ ?_
      rw [List.getElem?_map, List.getElem?_map]
      have hsome : (vs[i]?).isSome = (ws[i]?).isSome := by grind
      refine map_eq_of_isSome_eq hsome fun a b ha hb ↦ ?_
      have hvs := List.mem_of_getElem? ha
      have hws := List.mem_of_getElem? hb
      refine ih i a b ha hb (hv.elements a hvs) (hw.elements b hws) fun f hf g hg ↦ ?_
      exact hagree f (mem_closures_array.2 ⟨a, hvs, hf⟩) g (mem_closures_array.2 ⟨b, hws, hg⟩)
    rw [display, display, displayAll_eq_map, displayAll_eq_map, hall]
  | @hash es fs hkeys _ ih =>
    obtain ⟨hes, hvs⟩ := hv.entries
    obtain ⟨hfs, hws⟩ := hw.entries
    have htext : ∀ k, (Dict.get? es k).map display = (Dict.get? fs k).map display := by
      refine fun k ↦ map_eq_of_isSome_eq (hkeys k) fun a b ha hb ↦ ?_
      have ha' := Dict.mem_of_get? ha
      have hb' := Dict.mem_of_get? hb
      refine ih k a b ha hb (hvs _ ha') (hws _ hb') fun f hf g hg ↦ ?_
      exact hagree f (mem_closures_hash.2 ⟨_, ha', hf⟩) g (mem_closures_hash.2 ⟨_, hb', hg⟩)
    -- the texts of the pairs are those of the keys, and these are the same up to their order
    have hperm : (displayEntries es).Perm (displayEntries fs) := by
      rw [hes.displayEntries_eq, hfs.displayEntries_eq]
      simp only [htext]
      exact (hes.perm_keys hfs hkeys).map _
    rw [display, display, sortedTexts_eq_of_perm hperm]
  | @function f g horigin _ =>
    obtain ⟨hparameters, hbody⟩ := hagree f List.mem_cons_self g List.mem_cons_self horigin
    rw [display, display, Closure.display, Closure.display, hparameters, hbody]
  | _ => rfl

/-! ## The operator `==` -/

/-- Values for which `==` yields true are equal.  The operator says `false` of arrays, hashes and
functions, even of one and the same.  Where it says `true`, the values are equal for a host too;
the converse fails. -/
theorem Value.same_of_applyBinary {v w : Value}
    (h : applyBinary .equal v w = .ok (.bool true)) : v.same w = true := by
  cases v <;> cases w <;>
    simp_all [applyBinary, applyToInts, applyToStrings, sameSingleton, Value.same]

end MonkeyLang
