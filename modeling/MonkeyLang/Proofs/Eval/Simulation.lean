import MonkeyLang.Proofs.Eval.Depth
import MonkeyLang.Proofs.Eval.Frame
import MonkeyLang.Proofs.Value.Alike

/-!
# Evaluation does not see the names of scopes

Scopes are named by numbers in the order of their creation, so the same program run on two machines
makes scopes of different names.  Nothing that it computes depends on them: as long as the scopes
that it can reach on one machine are matched with alike ones on the other, it ends in the same way
on both, with values that are alike, and matches the scopes that it made.  Places in the program do
not matter either.

A matching is a relation `ρ` between the scopes of two stores.  `Store.Alike ρ` says that matched
scopes are alike, and `Eval.Mirrors ρ` that two evaluations go together from alike stores on.

## Matchings

Not all scopes need to be matched.  A machine may have scopes that the program cannot reach, left
by other programs, and there is nothing to match them with.  It is enough that what matched scopes
refer to is matched again, which is part of their being alike.

A matching may also speak of scopes that do not exist yet.  The next scope to be made on one side
is then matched with the next one on the other (`Store.Alike.level`).  With this the identity is a
matching of every store with itself, once and for all, and need not be restricted to the scopes
that exist.

Matched scopes are in the same order on both sides.  Looking up a name goes outward to older
scopes, and checks at each step that the next one is older; the order makes sure that it does so on
both sides or on neither.

## Evaluations that go together

A simulation step has more to say than that the results are alike: the stores have grown, the
matching has grown by pairs of new scopes only, and what is alike is so under the larger matching
(`Store.Onward`).  Values that were related before stay related, so that a left operand can be
carried through the evaluation of the right one.

The code is the same on both sides up to a change of its tokens, which may be any change.  So the
same theorem serves to compare two layouts of a text, a program with its canonical form, and a
program with itself.
-/

set_option autoImplicit false

namespace MonkeyLang

/-! ## Stores -/

/-- Scopes that bind the same names to values that are alike, inside matched scopes.  Names are
compared by what they are bound to, and not by the order in which they were bound, which nobody can
see. -/
structure Scope.Alike (ρ : ScopeId → ScopeId → Prop) (a b : Scope) : Prop where
  bindings : AlikePairs ρ a.bindings b.bindings
  outer : Option.Rel ρ a.outer b.outer

/-- Scopes stay alike when more scopes are matched. -/
theorem Scope.Alike.mono {ρ ρ' : ScopeId → ScopeId → Prop} (hle : ∀ i j, ρ i j → ρ' i j)
    {a b : Scope} (h : a.Alike ρ b) : a.Alike ρ' b := by
  refine ⟨h.bindings.mono hle, ?_⟩
  obtain ⟨hi, hj⟩ | ⟨i, j, hi, hj, hij⟩ := optionRel_cases h.outer
  · rw [hi, hj]
    exact .none
  · rw [hi, hj]
    exact .some (hle i j hij)

/-- Stores in which matched scopes are alike.  Scopes that are not matched do not have to be alike.
There can be any number of them on either side, as when a program runs on a machine that did other
things before. -/
structure Store.Alike (ρ : ScopeId → ScopeId → Prop) (s t : Store) : Prop where
  /-- Matched scopes were made in the same order. -/
  order : ∀ {i j i' j' : Nat}, ρ i j → ρ i' j' → (i < i' ↔ j < j')
  /-- A scope that is still to be made is matched with the one to be made at the same time. -/
  level : ∀ {i j : Nat}, ρ i j →
    (i < s.size ∧ j < t.size) ∨ ∃ n, i = s.size + n ∧ j = t.size + n
  scopes : ∀ {i j : Nat}, ρ i j → Option.Rel (Scope.Alike ρ) (s.scope? i) (t.scope? j)

/-- The matching that has one pair more. -/
def withPair (ρ : ScopeId → ScopeId → Prop) (i j : ScopeId) : ScopeId → ScopeId → Prop :=
  fun i' j' ↦ ρ i' j' ∨ (i' = i ∧ j' = j)

namespace Store

namespace Alike

variable {ρ : ScopeId → ScopeId → Prop} {s t : Store}

/-- A matching pairs no scope twice.  This is what equality of functions needs: two closures with
matched scopes are equal on one side if they are on the other. -/
theorem eq_iff (h : s.Alike ρ t) {i j i' j' : Nat} (hij : ρ i j) (hij' : ρ i' j') :
    i = i' ↔ j = j' := by
  have hlt := h.order hij hij'
  have hgt := h.order hij' hij
  omega

/-- Every store is alike to itself when each scope is matched with itself. -/
theorem refl (s : Store) : s.Alike Eq s where
  order := by
    rintro i _ i' _ rfl rfl
    rfl
  level := by
    rintro i j rfl
    by_cases hi : i < s.size
    · exact .inl ⟨hi, hi⟩
    · exact .inr ⟨i - s.size, by omega, by omega⟩
  scopes := by
    rintro i _ rfl
    cases s.scope? i with
    | none => exact .none
    | some scope =>
      refine .some ⟨.refl scope.bindings, ?_⟩
      cases scope.outer with
      | none => exact .none
      | some outer => exact .some rfl

/-- A name has values that are alike, seen from matched scopes.  By induction on the way outward,
which is matched step by step. -/
theorem lookup (h : s.Alike ρ t) (name : String) {i j : Nat} (hij : ρ i j) :
    Option.Rel (Value.Alike ρ) (s.lookup i name) (t.lookup j name) := by
  -- the outer scope is an older one
  induction i using Nat.strongRecOn generalizing j with
  | ind i ih =>
    rw [Store.lookup, Store.lookup]
    obtain ⟨ha, hb⟩ | ⟨a, b, ha, hb, hab⟩ := optionRel_cases (h.scopes hij)
    · rw [ha, hb]
      exact .none
    rw [ha, hb]
    dsimp only
    obtain ⟨hv, hw⟩ | ⟨v, w, hv, hw, hvw⟩ := optionRel_cases (hab.bindings.get? name)
    · rw [hv, hw]
      dsimp only
      obtain ⟨hi', hj'⟩ | ⟨i', j', hi', hj', hij'⟩ := optionRel_cases hab.outer
      · rw [hi', hj']
        exact .none
      · rw [hi', hj']
        dsimp only
        rw [if_congr (h.order hij' hij).symm rfl rfl]
        split
        · exact ih i' ‹_› hij'
        · exact .none
    · rw [hv, hw]
      exact .some hvw

/-- Binding values that are alike in matched scopes. -/
theorem bind (h : s.Alike ρ t) {i j : Nat} (hij : ρ i j) (name : String) {v w : Value}
    (hvw : v.Alike ρ w) : (s.bind i name v).Alike ρ (t.bind j name w) where
  order := h.order
  level := by
    rw [size_bind, size_bind]
    exact h.level
  scopes := by
    intro i' j' hij'
    rw [scope?_bind, scope?_bind, if_congr (h.eq_iff hij hij') rfl rfl]
    split
    · obtain ⟨ha, hb⟩ | ⟨a, b, ha, hb, hab⟩ := optionRel_cases (h.scopes hij')
      · rw [ha, hb]
        exact .none
      · rw [ha, hb]
        exact .some ⟨hab.bindings.insert name hvw, hab.outer⟩
    · exact h.scopes hij'

/-- Scopes that are made at the same time are matched.  Both get the number that is the size of
their store.  Numbers on the two sides need not be the same, and so the matching has to grow by
this pair. -/
theorem add (h : s.Alike ρ t) {a b : Scope} (hab : a.Alike ρ b) :
    (s.add a).Alike (withPair ρ s.size t.size) (t.add b) where
  order := by
    rintro i j i' j' (hij | ⟨rfl, rfl⟩) (hij' | ⟨rfl, rfl⟩)
    · exact h.order hij hij'
    -- scopes that were matched before are older than the new ones, or neither of them exists
    · obtain hold | ⟨n, hi, hj⟩ := h.level hij
      · omega
      · omega
    · obtain hold | ⟨n, hi, hj⟩ := h.level hij'
      · omega
      · omega
    · omega
  level := by
    rw [size_add, size_add]
    rintro i j (hij | ⟨rfl, rfl⟩)
    · obtain hlt | ⟨n, rfl, rfl⟩ := h.level hij
      · exact .inl ⟨by omega, by omega⟩
      · cases n with
        | zero => exact .inl ⟨by omega, by omega⟩
        | succ n => exact .inr ⟨n, by omega, by omega⟩
    · exact .inl ⟨by omega, by omega⟩
  scopes := by
    have hnew : Option.Rel (Scope.Alike (withPair ρ s.size t.size))
        ((s.add a).scope? s.size) ((t.add b).scope? t.size) := by
      rw [scope?_add_size, scope?_add_size]
      exact .some (hab.mono fun _ _ ↦ .inl)
    rintro i j (hij | ⟨rfl, rfl⟩)
    · obtain ⟨hi, hj⟩ | ⟨n, rfl, rfl⟩ := h.level hij
      · rw [scope?_add s a hi, scope?_add t b hj]
        obtain ⟨ha, hb⟩ | ⟨a', b', ha, hb, hold⟩ := optionRel_cases (h.scopes hij)
        · rw [ha, hb]
          exact .none
        · rw [ha, hb]
          exact .some (hold.mono fun _ _ ↦ .inl)
      · cases n with
        | zero => exact hnew
        | succ n =>
          have hs : (s.add a).scope? (s.size + (n + 1)) = none :=
            scope?_eq_none.2 (by rw [size_add]; omega)
          have ht : (t.add b).scope? (t.size + (n + 1)) = none :=
            scope?_eq_none.2 (by rw [size_add]; omega)
          rw [hs, ht]
          exact .none
    · exact hnew

end Alike

/-- From the stores `s` and `t` with the matching `ρ` on to `s'` and `t'` with the matching `ρ'`: no
scope goes away, only scopes that were made on the way are matched anew, and matched scopes are
alike in the end. -/
structure Onward (ρ ρ' : ScopeId → ScopeId → Prop) (s t s' t' : Store) : Prop where
  left : s.size ≤ s'.size
  right : t.size ≤ t'.size
  keeps : ∀ i j, ρ i j → ρ' i j
  fresh : ∀ {i j : Nat}, ρ' i j → ¬ ρ i j →
    (s.size ≤ i ∧ i < s'.size) ∧ t.size ≤ j ∧ j < t'.size
  alike : s'.Alike ρ' t'

namespace Onward

variable {ρ ρ' ρ'' : ScopeId → ScopeId → Prop} {s t s' t' s'' t'' : Store}

/-- Nothing happened. -/
theorem of_alike (h : s.Alike ρ t) : Onward ρ ρ s t s t :=
  ⟨Nat.le_refl _, Nat.le_refl _, fun _ _ hij ↦ hij, fun hij hne ↦ absurd hij hne, h⟩

/-- What happened in two steps. -/
theorem trans (h : Onward ρ ρ' s t s' t') (h' : Onward ρ' ρ'' s' t' s'' t'') :
    Onward ρ ρ'' s t s'' t'' where
  left := Nat.le_trans h.left h'.left
  right := Nat.le_trans h.right h'.right
  keeps i j hij := h'.keeps i j (h.keeps i j hij)
  fresh := by
    intro i j hij hne
    have hleft := h.left
    have hright := h.right
    have hleft' := h'.left
    have hright' := h'.right
    by_cases hmid : ρ' i j
    · have hfresh := h.fresh hmid hne
      omega
    · have hfresh := h'.fresh hij hmid
      omega
  alike := h'.alike

end Onward
end Store

/-! ## Evaluations that go together -/

/-- Signals that are alike: a `return` with values that are, or the same error. -/
def Signal.Alike (ρ : ScopeId → ScopeId → Prop) : Signal → Signal → Prop
  | .returned v, .returned w => v.Alike ρ w
  | .failed e, .failed e' => e' = e
  | _, _ => False

namespace Eval

/-- From any two alike stores on, the evaluations end in the same way: with results that are
related by `R`, or with signals that are alike.  The relation between results may depend on the
matching, which is not the one at the start but the one that has grown. -/
def Mirrors {α : Type} (ρ : ScopeId → ScopeId → Prop)
    (R : (ScopeId → ScopeId → Prop) → α → α → Prop) (run run' : Eval α) : Prop :=
  ∀ m m' : Machine, m.store.Alike ρ m'.store →
    (run m).Together
      (fun v n w n' ↦ ∃ ρ', Store.Onward ρ ρ' m.store m'.store n.store n'.store ∧ R ρ' v w)
      (fun e n e' n' ↦ ∃ ρ', Store.Onward ρ ρ' m.store m'.store n.store n'.store ∧ e.Alike ρ' e')
      (run' m')

namespace Mirrors

variable {α β : Type} {ρ : ScopeId → ScopeId → Prop}
variable {R : (ScopeId → ScopeId → Prop) → α → α → Prop}
variable {S : (ScopeId → ScopeId → Prop) → β → β → Prop}

theorem pure {v w : α} (h : R ρ v w) : Mirrors ρ R (pure v) (pure w) :=
  fun _ _ hm ↦ ⟨ρ, .of_alike hm, h⟩

theorem exhaust : Mirrors ρ R (Action.exhaust : Eval α) Action.exhaust := fun _ _ _ ↦ trivial

theorem halt {e e' : Signal} (h : e.Alike ρ e') :
    Mirrors ρ R (Action.halt e : Eval α) (Action.halt e') :=
  fun _ _ hm ↦ ⟨ρ, .of_alike hm, h⟩

theorem ofExcept {r r' : Except EvalError α} (h : AlikeResults (R ρ) r r') :
    Mirrors ρ R (ofExcept r) (ofExcept r') := by
  cases r with
  | ok v =>
    cases r' with
    | ok w => exact pure h
    | error e' => exact h.elim
  | error e =>
    cases r' with
    | ok w => exact h.elim
    | error e' => exact halt h

theorem bind {first first' : Eval α} {next next' : α → Eval β} (h : Mirrors ρ R first first')
    (hnext : ∀ ρ', (∀ i j, ρ i j → ρ' i j) → ∀ v w, R ρ' v w → Mirrors ρ' S (next v) (next' w)) :
    Mirrors ρ S (first >>= next) (first' >>= next') := by
  intro m m' hm
  refine (h m m' hm).bind ?_
  rintro v n w n' ⟨ρ', hon, hvw⟩
  refine (hnext ρ' hon.keeps v w hvw n n' hon.alike).imp ?_ ?_
  · rintro _ _ _ _ ⟨ρ'', hon', hvw'⟩
    exact ⟨ρ'', hon.trans hon', hvw'⟩
  · rintro _ _ _ _ ⟨ρ'', hon', hsignal⟩
    exact ⟨ρ'', hon.trans hon', hsignal⟩

/-- Names are looked up in matched scopes, and otherwise are builtin functions on both sides. -/
theorem lookup {frame frame' : Frame} (hframe : ρ frame.scope frame'.scope) (text : String) :
    Mirrors ρ Value.Alike (lookup frame text) (lookup frame' text) := by
  intro m m' hm
  rw [Eval.lookup, Eval.lookup]
  obtain ⟨hv, hw⟩ | ⟨v, w, hv, hw, hvw⟩ := optionRel_cases (hm.lookup text hframe)
  · rw [hv, hw]
    dsimp only
    cases Builtin.ofName? text with
    | none => exact ⟨ρ, .of_alike hm, rfl⟩
    | some b => exact ⟨ρ, .of_alike hm, rfl⟩
  · rw [hv, hw]
    exact ⟨ρ, .of_alike hm, hvw⟩

/-- The value is bound in matched scopes, and nowhere else. -/
theorem assign {frame frame' : Frame} (hframe : ρ frame.scope frame'.scope) (text : String)
    {v w : Value} (hvw : v.Alike ρ w) :
    Mirrors ρ (fun _ _ _ ↦ True) (assign frame text v) (assign frame' text w) := by
  intro m m' hm
  refine ⟨ρ, ⟨?_, ?_, fun _ _ hij ↦ hij, fun hij hne ↦ absurd hij hne, hm.bind hframe text hvw⟩,
    trivial⟩
  · exact Nat.le_of_eq (Store.size_bind ..).symm
  · exact Nat.le_of_eq (Store.size_bind ..).symm

/-- The scopes of two calls are matched. -/
theorem enter {f g : Closure} (hfg : f.Alike ρ g) {vs ws : List Value}
    (hvs : List.Forall₂ (Value.Alike ρ) vs ws) :
    Mirrors ρ (fun ρ' frame frame' ↦ ρ' frame.scope frame'.scope) (enter f vs) (enter g ws) := by
  intro m m' hm
  refine ⟨withPair ρ m.store.size m'.store.size, ⟨?_, ?_, fun _ _ ↦ .inl, ?_, ?_⟩,
    .inr ⟨rfl, rfl⟩⟩
  · rw [Store.size_add]
    omega
  · rw [Store.size_add]
    omega
  · intro i j hij hne
    obtain ⟨rfl, rfl⟩ := hij.resolve_left hne
    rw [Store.size_add, Store.size_add]
    omega
  · refine hm.add ⟨?_, .some hfg.scope⟩
    rw [hfg.parameters]
    exact AlikePairs.insertAll hvs .nil

theorem boundary {run run' : Eval Value} (h : Mirrors ρ Value.Alike run run') :
    Mirrors ρ Value.Alike (boundary run) (boundary run') := by
  intro m m' hm
  rw [Eval.boundary, Eval.boundary]
  obtain ⟨v, n, w, n', ho, ho', hvw⟩ | ⟨e, n, e', n', ho, ho', ρ', hon, hsignal⟩ | ⟨ho, ho'⟩ :=
    (h m m' hm).inv
  · rw [ho, ho']
    exact hvw
  · rw [ho, ho']
    cases e <;> cases e'
    · exact ⟨ρ', hon, hsignal⟩
    · exact hsignal.elim
    · exact hsignal.elim
    · exact ⟨ρ', hon, hsignal⟩
  · rw [ho, ho']
    exact trivial

theorem callBuiltin (b : Builtin) {vs ws : List Value}
    (hvs : List.Forall₂ (Value.Alike ρ) vs ws) :
    Mirrors ρ Value.Alike (callBuiltin b vs) (callBuiltin b ws) := by
  have hresult : Mirrors ρ Value.Alike (Eval.ofExcept (b.result vs))
      (Eval.ofExcept (b.result ws)) := ofExcept (alike_congruence.builtin_result b hvs)
  rw [Eval.callBuiltin, Eval.callBuiltin]
  split
  · exact fun m m' hm ↦ hresult _ _ hm
  · exact hresult

end Mirrors

/-! ## Every construct

Once more by recursion on the bound.  The proof of a construct follows its evaluation and hands the
matching from one part to the next. -/

theorem statements_mapTokens (b : Block) (change : Token → Token) :
    (b.mapTokens change).statements = mapTokensStmts change b.statements := by
  cases b
  rw [Block.mapTokens]

mutual

/-- **An expression is evaluated in the same way in matched scopes, with tokens changed in any
way.**  By recursion on the bound, together with everything that an expression can contain or call.
-/
theorem mirrors_expression : ∀ depth {ρ : ScopeId → ScopeId → Prop} {frame frame' : Frame},
    ρ frame.scope frame'.scope → ∀ (change : Token → Token) (e : Expr),
      Mirrors ρ Value.Alike (expression depth frame e)
        (expression depth frame' (e.mapTokens change))
  | 0, _, _, _, _, _, _ => .exhaust
  | _ + 1, _, _, _, hframe, _, .ident id => .lookup hframe id.name
  | _ + 1, _, _, _, _, _, .int _ _ | _ + 1, _, _, _, _, _, .string _ _
  | _ + 1, _, _, _, _, _, .bool _ _ => .pure rfl
  | depth + 1, _, _, _, hframe, change, .unary _ op a =>
    (mirrors_expression depth hframe change a).bind fun _ _ _ _ hvw ↦
      .ofExcept (alike_applyUnary op hvw)
  | depth + 1, _, _, _, hframe, change, .binary _ op a b => by
    refine (mirrors_expression depth hframe change a).bind fun ρ' hle v v' hv ↦ ?_
    refine (mirrors_expression depth (hle _ _ hframe) change b).bind fun ρ'' hle' w w' hw ↦ ?_
    exact .ofExcept (alike_applyBinary op (hv.mono hle') hw)
  | depth + 1, _, _, _, hframe, change, .cond _ c b none => by
    refine (mirrors_expression depth hframe change c).bind fun ρ' hle v w hvw ↦ ?_
    rw [hvw.truthy_eq]
    split
    · rw [statements_mapTokens]
      exact mirrors_statements depth (hle _ _ hframe) change alike_null b.statements
    · exact .pure alike_null
  | depth + 1, _, _, _, hframe, change, .cond _ c b (some d) => by
    refine (mirrors_expression depth hframe change c).bind fun ρ' hle v w hvw ↦ ?_
    rw [hvw.truthy_eq]
    split
    · rw [statements_mapTokens]
      exact mirrors_statements depth (hle _ _ hframe) change alike_null b.statements
    · dsimp only
      rw [statements_mapTokens]
      exact mirrors_statements depth (hle _ _ hframe) change alike_null d.statements
  | _ + 1, _, _, _, hframe, change, .function _ ids b => by
    refine .pure ⟨?_, ⟨change, rfl⟩, hframe⟩
    rw [List.map_map]
    rfl
  | depth + 1, _, _, _, hframe, change, .call _ f as => by
    refine (mirrors_expression depth hframe change f).bind fun ρ' hle v w hvw ↦ ?_
    refine (mirrors_expressions depth (hle _ _ hframe) change as).bind fun ρ'' hle' vs ws hvs ↦ ?_
    exact mirrors_apply depth (hvw.mono hle') hvs
  | depth + 1, _, _, _, hframe, change, .array _ as => by
    refine (mirrors_expressions depth hframe change as).bind fun ρ' _ vs ws hvs ↦ ?_
    refine .pure ?_
    rw [Value.Alike, alikeValues_iff]
    exact hvs
  | depth + 1, _, _, _, hframe, change, .index _ a i => by
    refine (mirrors_expression depth hframe change a).bind fun ρ' hle v v' hv ↦ ?_
    refine (mirrors_expression depth (hle _ _ hframe) change i).bind fun ρ'' hle' w w' hw ↦ ?_
    exact .ofExcept (alike_congruence.applyIndex (hv.mono hle') hw)
  | depth + 1, _, _, _, hframe, change, .hash _ ps => by
    refine (mirrors_entries depth hframe change .nil ps).bind fun ρ' _ es fs hes ↦ ?_
    refine .pure ?_
    rw [Value.Alike, alikeEntries_iff]
    exact hes

theorem mirrors_expressions : ∀ depth {ρ : ScopeId → ScopeId → Prop} {frame frame' : Frame},
    ρ frame.scope frame'.scope → ∀ (change : Token → Token) (es : List Expr),
      Mirrors ρ (fun ρ' ↦ List.Forall₂ (Value.Alike ρ')) (expressions depth frame es)
        (expressions depth frame' (mapTokensExprs change es))
  | 0, _, _, _, _, _, _ => .exhaust
  | _ + 1, _, _, _, _, _, [] => .pure .nil
  | depth + 1, _, _, _, hframe, change, e :: es => by
    refine (mirrors_expression depth hframe change e).bind fun ρ' hle v w hvw ↦ ?_
    refine (mirrors_expressions depth (hle _ _ hframe) change es).bind fun ρ'' hle' vs ws hvs ↦ ?_
    exact .pure (.cons (hvw.mono hle') hvs)

/-- The pairs collected so far are alike on both sides, key by key. -/
theorem mirrors_entries : ∀ depth {ρ : ScopeId → ScopeId → Prop} {frame frame' : Frame},
    ρ frame.scope frame'.scope → ∀ (change : Token → Token) {es fs : List (Key × Value)},
      AlikePairs ρ es fs → ∀ (ps : List (Expr × Expr)),
        Mirrors ρ AlikePairs (entries depth frame es ps)
          (entries depth frame' fs (mapTokensPairs change ps))
  | 0, _, _, _, _, _, _, _, _, _ => .exhaust
  | _ + 1, _, _, _, _, _, _, _, hes, [] => .pure hes
  | depth + 1, _, _, _, hframe, change, _, _, hes, (key, value) :: ps => by
    refine (mirrors_expression depth hframe change key).bind fun ρ' hle v v' hv ↦ ?_
    have hkey : Mirrors ρ' (fun _ k k' ↦ k' = k) (ofExcept (requireKey v))
        (ofExcept (requireKey v')) := .ofExcept (alike_requireKey hv)
    refine hkey.bind fun ρ₂ hle₂ k k' hkk' ↦ ?_
    have hframe₂ := hle₂ _ _ (hle _ _ hframe)
    refine (mirrors_expression depth hframe₂ change value).bind fun ρ₃ hle₃ w w' hw ↦ ?_
    rw [hkk']
    have hes₃ := ((hes.mono hle).mono hle₂).mono hle₃
    exact mirrors_entries depth (hle₃ _ _ hframe₂) change (hes₃.insert k hw) ps

theorem mirrors_statement : ∀ depth {ρ : ScopeId → ScopeId → Prop} {frame frame' : Frame},
    ρ frame.scope frame'.scope → ∀ (change : Token → Token) (s : Stmt),
      Mirrors ρ Value.Alike (statement depth frame s)
        (statement depth frame' (s.mapTokens change))
  | 0, _, _, _, _, _, _ => .exhaust
  | depth + 1, _, _, _, hframe, change, .letStmt _ id e => by
    refine (mirrors_expression depth hframe change e).bind fun ρ' hle v w hvw ↦ ?_
    refine (Mirrors.assign (hle _ _ hframe) id.name hvw).bind fun _ _ _ _ _ ↦ ?_
    exact .pure alike_null
  | _ + 1, _, _, _, _, _, .returnStmt _ none => .halt trivial
  | depth + 1, _, _, _, hframe, change, .returnStmt _ (some e) =>
    (mirrors_expression depth hframe change e).bind fun _ _ _ _ hvw ↦ .halt hvw
  | depth + 1, _, _, _, hframe, change, .exprStmt _ e => mirrors_expression depth hframe change e

theorem mirrors_statements : ∀ depth {ρ : ScopeId → ScopeId → Prop} {frame frame' : Frame},
    ρ frame.scope frame'.scope → ∀ (change : Token → Token) {last last' : Value},
      last.Alike ρ last' → ∀ ss : List Stmt,
        Mirrors ρ Value.Alike (statements depth frame last ss)
          (statements depth frame' last' (mapTokensStmts change ss))
  | 0, _, _, _, _, _, _, _, _, _ => .exhaust
  | _ + 1, _, _, _, _, _, _, _, hlast, [] => .pure hlast
  | depth + 1, _, _, _, hframe, change, _, _, _, s :: ss =>
    (mirrors_statement depth hframe change s).bind fun _ hle _ _ hvw ↦
      mirrors_statements depth (hle _ _ hframe) change hvw ss

/-- Functions that are alike have the same parameters and, up to tokens, the same body. -/
theorem mirrors_apply : ∀ depth {ρ : ScopeId → ScopeId → Prop} {f g : Value}, f.Alike ρ g →
    ∀ {vs ws : List Value}, List.Forall₂ (Value.Alike ρ) vs ws →
      Mirrors ρ Value.Alike (apply depth f vs) (apply depth g ws)
  | 0, _, _, _, _, _, _, _ => .exhaust
  | depth + 1, _, .function f, .function g, hfg, vs, ws, hvs => by
    rw [Value.Alike] at hfg
    rw [apply, apply, hfg.parameters, hvs.length_eq]
    split
    · refine (Mirrors.enter hfg hvs).bind fun ρ' hle frame frame' hframe ↦ ?_
      obtain ⟨change, hbody⟩ := hfg.body
      rw [hbody, statements_mapTokens]
      exact (mirrors_statements depth hframe change alike_null f.body.statements).boundary
    · exact .halt rfl
  | _ + 1, _, .builtin b, .builtin _, rfl, _, _, hvs => .callBuiltin b hvs
  | _ + 1, _, .int _, .int _, _, _, _, _ | _ + 1, _, .bool _, .bool _, _, _, _, _
  | _ + 1, _, .string _, .string _, _, _, _, _ | _ + 1, _, .array _, .array _, _, _, _, _
  | _ + 1, _, .hash _, .hash _, _, _, _, _ | _ + 1, _, .null, .null, _, _, _, _ => .halt rfl

end

/-- **A program runs in the same way in matched scopes, and at other places.** -/
theorem mirrors_evalSignals (depth : Nat) {ρ : ScopeId → ScopeId → Prop} {scope scope' : ScopeId}
    (hscope : ρ scope scope') (change : Token → Token) (p : Program) :
    Mirrors ρ Value.Alike (p.evalSignals depth scope)
      ((p.mapTokens change).evalSignals depth scope') := by
  intro m m' hm
  refine mirrors_statements depth ?_ change alike_null p.statements { m with units := m.units + 1 }
    { m' with units := m'.units + 1 } hm
  exact hscope

end Eval

end MonkeyLang
