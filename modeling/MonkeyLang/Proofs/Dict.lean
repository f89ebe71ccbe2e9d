import Mathlib.Data.List.Forall2
import Mathlib.Data.List.Nodup
import Mathlib.Order.RelClasses
import MonkeyLang.Dict

/-!
# Finite maps as functions of their keys

A finite map is what it says of each key.  After insertions one after the other, that is the value
of the last pair with the key (`Dict.get?_insertAll`), and the order in which different keys came
is forgotten: two maps in key order can be compared key by key or pair by pair
(`Dict.Increasing.forall₂_iff`).

`Dict.Distinct` asks less of a list of pairs than `Dict.Increasing`.  It stands for a finite map
whose pairs are listed in any order.

The last theorem is the one that justifies lists as maps.  Comparing two lists pair by pair is what
a program does, since it takes one pass, and comparing them key by key is what the comparison is
supposed to mean.  Both directions are needed: a hash that was compared by a program is to be used
in a proof, and a hash that was built in another order is to be found equal by a program.  The
relation between the values is a parameter, because values are compared up to equality in one
place, up to the names of scopes in another, and up to the binding of one name in a third.

Nothing is assumed about the keys but a strict total order that can be decided.  The relation on
the values need not be reflexive, or anything else.
-/

set_option autoImplicit false

namespace MonkeyLang
namespace Dict

variable {κ ν : Type}

/-! ## Lists of pairs as maps

The two predicates are about keys alone, and they are stated of the list, not of a type of lists
with a proof inside: values are a nested inductive type in which such a type could not occur. -/

/-- No two pairs have the same key.  This is what makes a list of pairs a map: looking up a key
finds the first pair, and there is no other one. -/
def Distinct (entries : List (κ × ν)) : Prop := (keys entries).Nodup

/-- Each key is smaller than those after it. -/
def Increasing [LT κ] (entries : List (κ × ν)) : Prop := entries.Pairwise fun p q ↦ p.1 < q.1

/-- A map in key order lists each key once. -/
theorem Increasing.distinct [LT κ] [IsStrictTotalOrder κ (· < ·)] {entries : List (κ × ν)}
    (h : Increasing entries) : Distinct entries := by
  rw [Distinct, keys, List.nodup_iff_pairwise_ne, List.pairwise_map]
  refine h.imp fun {p q} hlt heq ↦ ?_
  rw [heq] at hlt
  exact irrefl_of (· < ·) q.1 hlt

/-! ## Looking up -/

variable [DecidableEq κ]

theorem mem_of_get? {entries : List (κ × ν)} {key : κ} {value : ν}
    (h : get? entries key = some value) : (key, value) ∈ entries := by
  induction entries with
  | nil => cases h
  | cons p rest ih =>
    obtain ⟨k, v⟩ := p
    rw [get?] at h
    split at h
    · rename_i hk
      rw [hk, Option.some.inj h]
      exact List.mem_cons_self
    · exact List.mem_cons_of_mem _ (ih h)

theorem get?_eq_none_iff {entries : List (κ × ν)} {key : κ} :
    get? entries key = none ↔ key ∉ keys entries := by
  induction entries with
  | nil => simp [get?, keys]
  | cons p entries ih =>
    obtain ⟨k, v⟩ := p
    rw [keys] at ih ⊢
    by_cases hk : k = key
    · simp [get?, hk]
    · simp [get?, hk, ih, Ne.symm hk]

theorem isSome_get?_iff {entries : List (κ × ν)} {key : κ} :
    (get? entries key).isSome = true ↔ key ∈ keys entries := by
  rw [← not_iff_not, ← get?_eq_none_iff, Option.not_isSome_iff_eq_none]

/-- So a map with distinct keys is the set of its pairs. -/
theorem Distinct.get?_eq_some_iff {entries : List (κ × ν)} (h : Distinct entries) {key : κ}
    {value : ν} : get? entries key = some value ↔ (key, value) ∈ entries := by
  refine ⟨mem_of_get?, fun hmem ↦ ?_⟩
  induction entries with
  | nil => cases hmem
  | cons q entries ih =>
    obtain ⟨k, v⟩ := q
    obtain ⟨hk, hrest⟩ := List.nodup_cons.1 h
    rcases List.mem_cons.1 hmem with heq | hmem
    · obtain ⟨rfl, rfl⟩ := Prod.mk.inj heq
      rw [get?, if_pos rfl]
    · have hne : k ≠ key := by
        rintro rfl
        exact hk (List.mem_map.2 ⟨_, hmem, rfl⟩)
      rw [get?, if_neg hne]
      exact ih hrest hmem

/-- Two maps with the same keys have them in some order.  The lists of pairs need not be
permutations of each other, as the values may differ. -/
theorem Distinct.perm_keys {entries others : List (κ × ν)} (h : Distinct entries)
    (h' : Distinct others)
    (hkeys : ∀ key, (get? entries key).isSome = (get? others key).isSome) :
    (keys entries).Perm (keys others) := by
  refine (List.perm_ext_iff_of_nodup h h').2 fun key ↦ ?_
  rw [← isSome_get?_iff, hkeys, isSome_get?_iff]

/-! ## Pairs with the same keys

What one map says of a key may be missing and what another one says may be there, so a relation
between two maps has to be one between options. -/

section Related

variable {R : ν → ν → Prop}

/-- Options are related if both are missing, or both are there and related. -/
theorem optionRel_iff {x y : Option ν} :
    Option.Rel R x y ↔ x.isSome = y.isSome ∧ ∀ v w, x = some v → y = some w → R v w := by
  cases x <;> cases y <;> simp

/-- Pairs with the same keys and related values give related values for each key.  The converse
needs both lists to be in the same order, as in `Increasing.forall₂_iff`. -/
theorem get?_of_forall₂ {entries others : List (κ × ν)}
    (h : List.Forall₂ (fun p q ↦ q.1 = p.1 ∧ R p.2 q.2) entries others) (key : κ) :
    Option.Rel R (get? entries key) (get? others key) := by
  induction h with
  | nil => exact .none
  | cons hpq _ ih =>
    rw [get?, get?, hpq.1]
    split
    · exact .some hpq.2
    · exact ih

end Related

/-! ## The last pair with a key -/

/-- The value of the last pair with the key.  Reading a list of pairs from behind is what a literal
with repeated keys means. -/
def last? (pairs : List (κ × ν)) (key : κ) : Option ν :=
  (pairs.reverse.find? fun p ↦ p.1 = key).map Prod.snd

/-- A pair in front counts only if no later pair has its key. -/
theorem last?_cons (p : κ × ν) (pairs : List (κ × ν)) (key : κ) :
    last? (p :: pairs) key = (last? pairs key).or (if p.1 = key then some p.2 else none) := by
  rw [last?, List.reverse_cons, List.find?_append, Option.map_or, last?, List.find?_singleton]
  by_cases hp : p.1 = key <;> simp [hp]

section Insert

variable [LT κ] [DecidableLT κ]

/-- An insertion adds no pair but its own. -/
theorem mem_insert {entries : List (κ × ν)} {key : κ} {value : ν} {p : κ × ν}
    (h : p ∈ insert entries key value) : p = (key, value) ∨ p ∈ entries := by
  induction entries with
  | nil => exact .inl (List.mem_singleton.1 h)
  | cons q rest ih =>
    obtain ⟨k, v⟩ := q
    rw [insert] at h
    split at h
    · rcases List.mem_cons.1 h with rfl | hrest
      · exact .inl rfl
      · exact .inr (List.mem_cons_of_mem _ hrest)
    · split at h
      · exact List.mem_cons.1 h
      · rcases List.mem_cons.1 h with rfl | hrest
        · exact .inr List.mem_cons_self
        · exact (ih hrest).imp id (List.mem_cons_of_mem _)

theorem mem_insertAll {pairs entries : List (κ × ν)} {p : κ × ν}
    (h : p ∈ insertAll entries pairs) : p ∈ entries ∨ p ∈ pairs := by
  induction pairs generalizing entries with
  | nil => exact .inl h
  | cons q pairs ih =>
    rcases ih h with hinsert | hrest
    · rcases mem_insert hinsert with rfl | hentries
      · exact .inr List.mem_cons_self
      · exact .inl hentries
    · exact .inr (List.mem_cons_of_mem _ hrest)

/-- **The last pair with a key counts**, and where there is none, what the map said before.
Nothing is assumed about the order of the keys. -/
theorem get?_insertAll (entries pairs : List (κ × ν)) (key : κ) :
    get? (insertAll entries pairs) key = (last? pairs key).or (get? entries key) := by
  induction pairs generalizing entries with
  | nil => rfl
  | cons p pairs ih =>
    show get? (insertAll (insert entries p.1 p.2) pairs) key = _
    rw [ih, last?_cons, Option.or_assoc]
    by_cases hp : p.1 = key
    · subst hp
      rw [get?_insert_self, if_pos rfl, Option.some_or]
    · rw [get?_insert_of_ne entries p.2 (Ne.symm hp), if_neg hp, Option.none_or]

end Insert

/-! ## Maps in key order -/

section Order

variable [LT κ] [IsStrictTotalOrder κ (· < ·)]

/-- **Maps in key order are known by what they say of each key.**  They have related values for each
key if and only if they do pair by pair. -/
theorem Increasing.forall₂_iff {R : ν → ν → Prop} {entries others : List (κ × ν)}
    (h : Increasing entries) (h' : Increasing others) :
    List.Forall₂ (fun p q ↦ q.1 = p.1 ∧ R p.2 q.2) entries others ↔
      ∀ key, Option.Rel R (get? entries key) (get? others key) := by
  refine ⟨get?_of_forall₂, fun hrel ↦ ?_⟩
  -- both maps have the same keys in the same order, so pairs at the same index belong together
  have hperm : (keys entries).Perm (keys others) :=
    h.distinct.perm_keys h'.distinct fun key ↦ (optionRel_iff.1 (hrel key)).1
  have hkeys : keys entries = keys others := by
    refine hperm.eq_of_pairwise (fun j k _ _ hjk hkj ↦ ?_) (List.pairwise_map.2 h)
      (List.pairwise_map.2 h')
    exact absurd hkj (asymm_of (· < ·) hjk)
  refine List.forall₂_iff_get.2 ⟨by simpa [keys] using congrArg List.length hkeys, ?_⟩
  intro i hi hi'
  have hkey : (others.get ⟨i, hi'⟩).1 = (entries.get ⟨i, hi⟩).1 := by
    have hget : (keys entries)[i]? = (keys others)[i]? := by rw [hkeys]
    simpa [keys, hi, hi', eq_comm] using hget
  have hvalue := hrel (entries.get ⟨i, hi⟩).1
  rw [h.distinct.get?_eq_some_iff.2 (List.get_mem entries ⟨i, hi⟩), ← hkey,
    h'.distinct.get?_eq_some_iff.2 (List.get_mem others ⟨i, hi'⟩), Option.rel_some_some] at hvalue
  exact ⟨hkey, hvalue⟩

/-- An insertion leaves the keys in order.  It does not matter whether the key was there before. -/
theorem Increasing.insert [DecidableLT κ] {entries : List (κ × ν)} (h : Increasing entries)
    (key : κ) (value : ν) : Increasing (insert entries key value) := by
  induction entries with
  | nil => exact List.pairwise_singleton _ _
  | cons p entries ih =>
    obtain ⟨k, v⟩ := p
    obtain ⟨hk, hrest⟩ := List.pairwise_cons.1 h
    rw [Dict.insert]
    split
    · rename_i heq
      rw [← heq]
      exact List.pairwise_cons.2 ⟨hk, hrest⟩
    · split
      · rename_i hlt
        refine List.pairwise_cons.2 ⟨List.forall_mem_cons.2 ⟨hlt, fun q hq ↦ ?_⟩, h⟩
        exact trans_of (· < ·) hlt (hk q hq)
      · rename_i hne hge
        have hlt : k < key := ((trichotomous_of (· < ·) key k).resolve_left hge).resolve_left
          fun heq ↦ hne heq.symm
        refine List.pairwise_cons.2 ⟨fun q hq ↦ ?_, ih hrest⟩
        rcases mem_insert hq with rfl | hold
        · exact hlt
        · exact hk q hold

end Order

end Dict
end MonkeyLang
