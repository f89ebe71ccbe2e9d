import Mathlib.Data.List.Forall2
import MonkeyLang.Proofs.Program.Tokens
import MonkeyLang.Proofs.Value.Congruence
import MonkeyLang.Proofs.Value.Held
import MonkeyLang.Value.Display

/-!
# Values that look alike

A host sees the type of a value, its text, and the tree of its contents: `Value.shown`.  Of a
function this is the text only, and not in which scope or from which literal it was made.

Two values are *alike* if they have the same contents and their functions have the same parameters,
the same bodies up to places, and corresponding scopes.  Values that are alike look the same
(`Value.Alike.shown_eq`), and the operations on values give results that are alike.

## Why not just what a host sees

Two values that look the same need not behave in the same way: the text of a function does not tell
what the names in its body stand for.  So looking the same is no relation that an evaluation could
preserve.  Being alike is one, since a call of functions that are alike evaluates the same body in
scopes that correspond.

Which scopes correspond is a parameter `ρ` of the relation.  It is the identity where two programs
differ only in their places, it grows while two evaluations make scopes at different numbers, and
`Value.Alike.mono` says that values that were alike stay so meanwhile.  The texts of bodies do not
depend on places (`Closure.Alike.display_eq`), and it is for this reason only that a change of
places cannot be seen.

Keys of hashes hold no functions, so they are simply the same, and the pairs of two hashes that are
alike are listed in the same order.  Equality as a host computes it is another relation, for which
neither needs to be the case: `MonkeyLang.Proofs.Value.Equal`.
-/

set_option autoImplicit false

namespace MonkeyLang

/-! ## What a host sees -/

/-- The contents of a value, with the texts of functions in place of the functions.  A function is
represented by its text, which is all that a host can get out of it without calling it. -/
inductive Tree where
  | int (n : Int64)
  | bool (b : Bool)
  | string (text : String)
  | array (elements : List Tree)
  | hash (entries : List (Key × Tree))
  | function (parameters : List String) (body : String)
  | builtin (builtin : Builtin)
  | null

mutual

/-- The contents of a value. -/
def Value.tree : Value → Tree
  | .int n => .int n
  | .bool b => .bool b
  | .string text => .string text
  | .array elements => .array (treeAll elements)
  | .hash entries => .hash (treeEntries entries)
  | .function f => .function f.parameters f.body.render
  | .builtin b => .builtin b
  | .null => .null

def treeAll : List Value → List Tree
  | [] => []
  | v :: rest => v.tree :: treeAll rest

def treeEntries : List (Key × Value) → List (Key × Tree)
  | [] => []
  | (k, v) :: rest => (k, v.tree) :: treeEntries rest

end

/-- What a host sees of a value.  The type, the text, and the contents, which also tell whether it
counts as true. -/
structure Shown where
  type : ValueType
  text : String
  tree : Tree

/-- What a host sees of a value. -/
def Value.shown (v : Value) : Shown := ⟨v.type, v.display, v.tree⟩

/-! ## Alike

The relation is defined by recursion on both values, and not inductively, so that the cases where
it cannot hold disappear by computation.  Lists of values and lists of pairs are related by
functions of their own; `alikeValues_iff` and `alikeEntries_iff` turn these into `List.Forall₂`,
which is what all that follows is about. -/

/-- Functions with the same parameters, the same body up to places, and corresponding scopes.  The
origins may differ, and so the relation is coarser than equality of functions. -/
structure Closure.Alike (ρ : ScopeId → ScopeId → Prop) (f g : Closure) : Prop where
  parameters : g.parameters = f.parameters
  body : ∃ change, g.body = f.body.mapTokens change
  scope : ρ f.scope g.scope

mutual

/-- Values with the same contents, up to places in functions and with corresponding scopes.  The
relation between scopes says which ones correspond.  It is a parameter, because it grows while
programs run. -/
def Value.Alike (ρ : ScopeId → ScopeId → Prop) : Value → Value → Prop
  | .int m, .int n => n = m
  | .bool a, .bool b => b = a
  | .string a, .string b => b = a
  | .array as, .array bs => AlikeValues ρ as bs
  | .hash as, .hash bs => AlikeEntries ρ as bs
  | .function f, .function g => f.Alike ρ g
  | .builtin a, .builtin b => b = a
  | .null, .null => True
  | _, _ => False
termination_by structural v => v

def AlikeValues (ρ : ScopeId → ScopeId → Prop) : List Value → List Value → Prop
  | [], [] => True
  | a :: as, b :: bs => a.Alike ρ b ∧ AlikeValues ρ as bs
  | _, _ => False
termination_by structural vs => vs

def AlikeEntries (ρ : ScopeId → ScopeId → Prop) :
    List (Key × Value) → List (Key × Value) → Prop
  | [], [] => True
  | (j, a) :: as, (k, b) :: bs => (k = j ∧ a.Alike ρ b) ∧ AlikeEntries ρ as bs
  | _, _ => False
termination_by structural es => es

end

/-- Pairs with the same keys and values that are alike. -/
def AlikePairs {κ : Type} (ρ : ScopeId → ScopeId → Prop) :
    List (κ × Value) → List (κ × Value) → Prop :=
  List.Forall₂ fun p q ↦ q.1 = p.1 ∧ p.2.Alike ρ q.2

section Alike

variable {ρ ρ' : ScopeId → ScopeId → Prop}

/-- The lists of a nested type have relations of their own, and these two lemmas lead back to the
usual one. -/
theorem alikeValues_iff {vs ws : List Value} :
    AlikeValues ρ vs ws ↔ List.Forall₂ (Value.Alike ρ) vs ws := by
  induction vs generalizing ws with
  | nil => cases ws <;> simp [AlikeValues]
  | cons v vs ih => cases ws <;> simp [AlikeValues, ih]

theorem alikeEntries_iff {es fs : List (Key × Value)} :
    AlikeEntries ρ es fs ↔ AlikePairs ρ es fs := by
  rw [AlikePairs]
  induction es generalizing fs with
  | nil => cases fs <;> simp [AlikeEntries]
  | cons e es ih => cases fs <;> simp [AlikeEntries, ih]

mutual

/-- Values that are alike stay so when more scopes correspond. -/
theorem Value.Alike.mono (hle : ∀ i j, ρ i j → ρ' i j) : ∀ {v w : Value}, v.Alike ρ w →
    v.Alike ρ' w
  | .array _, .array _, h => by
    rw [Value.Alike] at h ⊢
    exact h.mono hle
  | .hash _, .hash _, h => by
    rw [Value.Alike] at h ⊢
    exact h.mono hle
  | .function _, .function _, h => ⟨h.parameters, h.body, hle _ _ h.scope⟩
  | .int _, .int _, h | .bool _, .bool _, h | .string _, .string _, h
  | .builtin _, .builtin _, h | .null, .null, h => h

theorem AlikeValues.mono (hle : ∀ i j, ρ i j → ρ' i j) : ∀ {vs ws : List Value},
    AlikeValues ρ vs ws → AlikeValues ρ' vs ws
  | [], [], h => h
  | _ :: _, _ :: _, ⟨h, hs⟩ => ⟨h.mono hle, AlikeValues.mono hle hs⟩

theorem AlikeEntries.mono (hle : ∀ i j, ρ i j → ρ' i j) : ∀ {es fs : List (Key × Value)},
    AlikeEntries ρ es fs → AlikeEntries ρ' es fs
  | [], [], h => h
  | (_, _) :: _, (_, _) :: _, ⟨⟨hk, h⟩, hs⟩ => ⟨⟨hk, h.mono hle⟩, AlikeEntries.mono hle hs⟩

end

theorem AlikePairs.mono {κ : Type} (hle : ∀ i j, ρ i j → ρ' i j) {ps qs : List (κ × Value)}
    (h : AlikePairs ρ ps qs) : AlikePairs ρ' ps qs :=
  List.Forall₂.imp (fun _ _ hpq ↦ ⟨hpq.1, hpq.2.mono hle⟩) h

mutual

/-- A value is alike to itself if the scopes of its functions correspond to themselves. -/
theorem Value.alike_self : ∀ v : Value, (∀ f ∈ v.closures, ρ f.scope f.scope) → v.Alike ρ v
  | .array vs, h => by
    rw [Value.Alike]
    exact alikeValues_self vs h
  | .hash es, h => by
    rw [Value.Alike]
    exact alikeEntries_self es h
  | .function f, h => ⟨rfl, ⟨id, f.body.mapTokens_id.symm⟩, h f List.mem_cons_self⟩
  | .int _, _ | .bool _, _ | .string _, _ | .builtin _, _ => rfl
  | .null, _ => trivial

theorem alikeValues_self : ∀ vs : List Value, (∀ f ∈ closuresOfValues vs, ρ f.scope f.scope) →
    AlikeValues ρ vs vs
  | [], _ => trivial
  | v :: vs, h => by
    rw [closuresOfValues, List.forall_mem_append] at h
    exact ⟨v.alike_self h.1, alikeValues_self vs h.2⟩

theorem alikeEntries_self : ∀ es : List (Key × Value),
    (∀ f ∈ closuresOfEntries es, ρ f.scope f.scope) → AlikeEntries ρ es es
  | [], _ => trivial
  | (_, v) :: es, h => by
    rw [closuresOfEntries, List.forall_mem_append] at h
    exact ⟨⟨rfl, v.alike_self h.1⟩, alikeEntries_self es h.2⟩

end

/-- A value is alike to itself if a scope corresponds to itself and to no other one. -/
theorem Value.Alike.refl (v : Value) : v.Alike Eq v := v.alike_self fun _ _ ↦ rfl

theorem AlikePairs.refl {κ : Type} (ps : List (κ × Value)) : AlikePairs Eq ps ps :=
  List.forall₂_same.2 fun p _ ↦ ⟨rfl, .refl p.2⟩

/-! ## Finite maps -/

section Dict

variable {κ : Type} [DecidableEq κ]

/-- What is found under a key is alike, and missing in both or in none. -/
theorem AlikePairs.get? {ps qs : List (κ × Value)} (h : AlikePairs ρ ps qs) (key : κ) :
    Option.Rel (Value.Alike ρ) (Dict.get? ps key) (Dict.get? qs key) :=
  Dict.get?_of_forall₂ h key

variable [LT κ] [DecidableLT κ]

/-- Writing values that are alike under the same key. -/
theorem AlikePairs.insert {ps qs : List (κ × Value)} (h : AlikePairs ρ ps qs) (key : κ)
    {v w : Value} (hvw : v.Alike ρ w) :
    AlikePairs ρ (Dict.insert ps key v) (Dict.insert qs key w) := by
  induction h with
  | nil => exact .cons ⟨rfl, hvw⟩ .nil
  | cons hpq hrest ih =>
    rw [Dict.insert, Dict.insert, hpq.1]
    split
    · exact .cons ⟨rfl, hvw⟩ hrest
    · split
      · exact .cons ⟨rfl, hvw⟩ (.cons ⟨rfl, hpq.2⟩ hrest)
      · exact .cons ⟨rfl, hpq.2⟩ ih

/-- The parameters of a call with arguments that are alike. -/
theorem AlikePairs.insertAll {names : List κ} {vs ws : List Value}
    (h : List.Forall₂ (Value.Alike ρ) vs ws) {ps qs : List (κ × Value)}
    (hpairs : AlikePairs ρ ps qs) :
    AlikePairs ρ (Dict.insertAll ps (names.zip vs)) (Dict.insertAll qs (names.zip ws)) := by
  induction h generalizing names ps qs with
  | nil =>
    rw [List.zip_nil_right]
    exact hpairs
  | cons hvw _ ih =>
    cases names with
    | nil => exact hpairs
    | cons name names => exact ih (hpairs.insert name hvw)

end Dict

/-- The outermost layers of values that are alike are the same. -/
theorem Value.Alike.layer : ∀ {v w : Value}, v.Alike ρ w → Value.Layer (Value.Alike ρ) v w
  | .array _, .array _, h => by
    rw [Value.Alike, alikeValues_iff] at h
    exact .array h
  | .hash _, .hash _, h => by
    rw [Value.Alike, alikeEntries_iff] at h
    exact .hash h.get?
  | .function f, .function g, _ => .function f g
  | .int n, .int _, rfl => .int n
  | .bool b, .bool _, rfl => .bool b
  | .string text, .string _, rfl => .string text
  | .builtin b, .builtin _, rfl => .builtin b
  | .null, .null, _ => .null

/-! ## Values that are alike look the same -/

/-- Functions that are alike have the same text, because the text of a body does not tell its
places. -/
theorem Closure.Alike.display_eq {f g : Closure} (h : f.Alike ρ g) : g.display = f.display := by
  obtain ⟨change, hbody⟩ := h.body
  rw [Closure.display, Closure.display, h.parameters, hbody, Block.render_mapTokens]

mutual

theorem Value.Alike.display_eq : ∀ {v w : Value}, v.Alike ρ w → w.display = v.display
  | .array _, .array _, h => by
    rw [Value.Alike] at h
    rw [Value.display, Value.display, h.display_eq]
  | .hash _, .hash _, h => by
    rw [Value.Alike] at h
    rw [Value.display, Value.display, h.display_eq]
  | .function _, .function _, h => Closure.Alike.display_eq h
  | .int _, .int _, rfl | .bool _, .bool _, rfl | .string _, .string _, rfl
  | .builtin _, .builtin _, rfl => rfl
  | .null, .null, _ => rfl

theorem AlikeValues.display_eq : ∀ {vs ws : List Value}, AlikeValues ρ vs ws →
    displayAll ws = displayAll vs
  | [], [], _ => rfl
  | _ :: _, _ :: _, ⟨h, hs⟩ => by rw [displayAll, displayAll, h.display_eq, hs.display_eq]

theorem AlikeEntries.display_eq : ∀ {es fs : List (Key × Value)}, AlikeEntries ρ es fs →
    displayEntries fs = displayEntries es
  | [], [], _ => rfl
  | (_, _) :: _, (_, _) :: _, ⟨⟨hk, h⟩, hs⟩ => by
    rw [displayEntries, displayEntries, hk, h.display_eq, hs.display_eq]

end

mutual

theorem Value.Alike.tree_eq : ∀ {v w : Value}, v.Alike ρ w → w.tree = v.tree
  | .array _, .array _, h => by
    rw [Value.Alike] at h
    rw [Value.tree, Value.tree, h.tree_eq]
  | .hash _, .hash _, h => by
    rw [Value.Alike] at h
    rw [Value.tree, Value.tree, h.tree_eq]
  | .function _, .function _, h => by
    obtain ⟨hparameters, ⟨change, hbody⟩, -⟩ := h
    rw [Value.tree, Value.tree, hparameters, hbody, Block.render_mapTokens]
  | .int _, .int _, rfl | .bool _, .bool _, rfl | .string _, .string _, rfl
  | .builtin _, .builtin _, rfl => rfl
  | .null, .null, _ => rfl

theorem AlikeValues.tree_eq : ∀ {vs ws : List Value}, AlikeValues ρ vs ws →
    treeAll ws = treeAll vs
  | [], [], _ => rfl
  | _ :: _, _ :: _, ⟨h, hs⟩ => by rw [treeAll, treeAll, h.tree_eq, hs.tree_eq]

theorem AlikeEntries.tree_eq : ∀ {es fs : List (Key × Value)}, AlikeEntries ρ es fs →
    treeEntries fs = treeEntries es
  | [], [], _ => rfl
  | (_, _) :: _, (_, _) :: _, ⟨⟨hk, h⟩, hs⟩ => by
    rw [treeEntries, treeEntries, hk, h.tree_eq, hs.tree_eq]

end

/-- Values that are alike are equal, or compound values of the same type.  This is what operators
need, because they tell compound values apart by their types only. -/
theorem Value.Alike.eq_or_compound : ∀ {v w : Value}, v.Alike ρ w →
    w = v ∨ v.isCompound = true ∧ w.isCompound = true ∧ w.type = v.type
  | .array _, .array _, _ | .hash _, .hash _, _ | .function _, .function _, _ =>
    .inr ⟨rfl, rfl, rfl⟩
  | .int _, .int _, rfl | .bool _, .bool _, rfl | .string _, .string _, rfl
  | .builtin _, .builtin _, rfl => .inl rfl
  | .null, .null, _ => .inl rfl

theorem Value.Alike.type_eq {v w : Value} (h : v.Alike ρ w) : w.type = v.type := h.layer.type_eq

theorem Value.Alike.truthy_eq {v w : Value} (h : v.Alike ρ w) : w.truthy = v.truthy :=
  h.layer.truthy_eq

/-- **Values that are alike look the same to a host.** -/
theorem Value.Alike.shown_eq {v w : Value} (h : v.Alike ρ w) : w.shown = v.shown := by
  rw [Value.shown, Value.shown, h.type_eq, h.display_eq, h.tree_eq]

/-! ## Operations

Operators compare data and look at nothing but the type of an operand that is not data, so they
give the very same result for operands that are alike.  Indexing and builtin functions can hand on
a function, and give results that are alike. -/

/-- A value without parts is alike to itself under any relation of scopes. -/
theorem Value.Alike.of_not_compound : ∀ {v : Value}, v.isCompound = false → v.Alike ρ v
  | .int _, _ | .bool _, _ | .string _, _ | .builtin _, _ => rfl
  | .null, _ => trivial

/-- Equal results without parts are alike. -/
theorem AlikeResults.of_eq {r r' : Except EvalError Value} (h : r' = r)
    (hsimple : ∀ v, r = .ok v → v.isCompound = false) : AlikeResults (Value.Alike ρ) r r' := by
  subst h
  cases r' with
  | ok v => exact .of_not_compound (hsimple v rfl)
  | error e => rfl

/-- Operators do not tell apart operands that are alike. -/
theorem applyUnary_eq (op : Operator) {v w : Value} (h : v.Alike ρ w) :
    applyUnary op w = applyUnary op v := by
  obtain rfl | ⟨hv, hw, htype⟩ := h.eq_or_compound
  · rfl
  · have hcompound : ∀ u : Value, u.isCompound = true → applyUnary op u =
        if op = .bang then .ok (.bool (!u.truthy)) else .error (.unknownUnary op u.type) := by
      intro u hu
      cases u <;> simp [Value.isCompound] at hu <;> cases op <;> rfl
    rw [hcompound v hv, hcompound w hw, h.truthy_eq, htype]

/-- What an operator gives if one of its operands is compound.  It is equal to nothing, and the
other operators do not know it. -/
def applyToCompound (op : Operator) (left right : ValueType) : Except EvalError Value :=
  match op with
  | .equal => .ok (.bool false)
  | .notEqual => .ok (.bool true)
  | op => .error (.unsupported left op right)

/-- As soon as one operand is compound, only the types count. -/
theorem applyBinary_of_compound (op : Operator) {left right : Value}
    (h : left.isCompound = true ∨ right.isCompound = true) :
    applyBinary op left right = applyToCompound op left.type right.type := by
  cases left <;> cases right <;> simp [Value.isCompound] at h <;> cases op <;> rfl

theorem applyBinary_eq (op : Operator) {a a' b b' : Value} (ha : a.Alike ρ a')
    (hb : b.Alike ρ b') : applyBinary op a' b' = applyBinary op a b := by
  obtain rfl | ⟨hleft, hleft', -⟩ := ha.eq_or_compound
  · obtain rfl | ⟨hright, hright', htype⟩ := hb.eq_or_compound
    · rfl
    · rw [applyBinary_of_compound op (.inr hright), applyBinary_of_compound op (.inr hright'),
        htype]
  · rw [applyBinary_of_compound op (.inl hleft), applyBinary_of_compound op (.inl hleft'),
      ha.type_eq, hb.type_eq]

theorem alike_applyUnary (op : Operator) {v w : Value} (h : v.Alike ρ w) :
    AlikeResults (Value.Alike ρ) (applyUnary op v) (applyUnary op w) :=
  .of_eq (applyUnary_eq op h) fun _ ↦ isCompound_applyUnary

theorem alike_applyBinary (op : Operator) {a a' b b' : Value} (ha : a.Alike ρ a')
    (hb : b.Alike ρ b') :
    AlikeResults (Value.Alike ρ) (applyBinary op a b) (applyBinary op a' b') :=
  .of_eq (applyBinary_eq op ha hb) fun _ ↦ isCompound_applyBinary

theorem alike_null : Value.Alike ρ .null .null := trivial

/-- Indexing and builtin functions respect the relation, whichever scopes correspond. -/
theorem alike_congruence : Value.Congruence (Value.Alike ρ) where
  layer := Value.Alike.layer
  int _ := rfl
  array h := by
    rw [Value.Alike, alikeValues_iff]
    exact h
  null := alike_null

theorem alike_requireKey {v w : Value} (h : v.Alike ρ w) :
    AlikeResults (fun j k ↦ k = j) (requireKey v) (requireKey w) := by
  rw [h.layer.requireKey_eq]
  cases requireKey v with
  | ok k => rfl
  | error e => rfl

end Alike

end MonkeyLang
