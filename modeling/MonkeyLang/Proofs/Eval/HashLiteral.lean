import MonkeyLang.Proofs.Dict
import MonkeyLang.Proofs.Eval.Depth
import MonkeyLang.Proofs.Eval.Rules
import MonkeyLang.Value.Same

/-!
# Hash literals

The pairs of a hash literal are evaluated in the order of the source: a key, then whether it can be
a key at all, then the value, then the next pair.  `PairsComeTo` says what this comes to, with the
values of all pairs if nothing goes wrong, and nothing of key order or of maps is in it.

The result is a map in which the last pair with a key counts.  `lastWith` says so of the evaluated
pairs in terms of equality from outside, and `hash_lastWins` is the statement that indexing a hash
literal gives just that.

## A specification of its own

Evaluation puts each pair into the map at once.  It never has a list of evaluated pairs, and the
order of the map is that of the keys.  So the specification is not the definition in other words:
`PairsComeTo` collects the values of all pairs, duplicates included, and the meaning of an index is
a search through that list from its end.  That both agree is an induction over the pairs with an
arbitrary map to start from (`PairsComeTo.settles`).

A relation and not a function, since a key may run for ever and no function computes whether it
does.  Every list of pairs is related to some outcome (`exists_pairsComeTo`), which may be to have
none.

## Keys

Keys are integers, truth values and strings.  Two values are the same key exactly when they are
equal as values, so a type never turns into another: `1` and `true` are different keys, and so are
`1` and `"1"`.  An index that cannot be a key is an error, even on an empty hash.
-/

set_option autoImplicit false

namespace MonkeyLang

/-! ## Keys

Whether a value can be a key depends on its type only.  What the key is depends on the value, and
the value can be had back from it. -/

/-- The types of values that can be keys. -/
def ValueType.isKey : ValueType → Bool
  | integer | boolean | string => true
  | array | hash | function | builtin | null => false

theorem Value.key?_eq_none_iff (v : Value) : v.key? = none ↔ v.type.isKey = false := by
  cases v <;> simp [Value.key?, Value.type, ValueType.isKey]

/-- A value of such a type is a key. -/
theorem Value.exists_key? {v : Value} (h : v.type.isKey = true) : ∃ k, v.key? = some k := by
  cases hk : v.key? with
  | none =>
    rw [(Value.key?_eq_none_iff v).1 hk] at h
    cases h
  | some k => exact ⟨k, rfl⟩

theorem requireKey_eq_ok_iff {v : Value} {k : Key} : requireKey v = .ok k ↔ v.key? = some k := by
  rw [requireKey]
  cases v.key? <;> simp

theorem requireKey_of_not_isKey {v : Value} (h : v.type.isKey = false) :
    requireKey v = .error (.notHashable v.type) := by
  rw [requireKey, (Value.key?_eq_none_iff v).2 h]

/-- A value equals one that can be a key when it is the same key. -/
theorem Value.same_iff_key? {v w : Value} {k : Key} (hw : w.key? = some k) :
    v.same w = true ↔ v.key? = some k := by
  cases w <;> simp only [Value.key?, Option.some.injEq, reduceCtorEq] at hw <;> subst hw <;>
    cases v <;> simp [Value.same, Value.key?]

/-! ## Evaluating the pairs

One constructor for each way in which the next pair can end.  The order of evaluation is in their
hypotheses: each one starts with the machine that the one before has left. -/

/-- The outcome with another value. -/
def Outcome.map {ε σ α β : Type} (f : α → β) : Outcome ε σ α → Outcome ε σ β
  | .done v s => .done (f v) s
  | .stop e s => .stop e s
  | .exhausted => .exhausted

/-- The pairs come to their values, or the first thing that goes wrong ends the evaluation, or it
goes on for ever. -/
inductive PairsComeTo (frame : Frame) :
    Machine → List (Expr × Expr) → Outcome Signal Machine (List (Value × Value)) → Prop
  | nil {m : Machine} : PairsComeTo frame m [] (.done [] m)
  /-- A key signals, and nothing after it is evaluated. -/
  | keyStops {m m' : Machine} {key value : Expr} {rest : List (Expr × Expr)} {e : Signal}
      (hkey : key.ComesTo frame m (.stop e m')) :
      PairsComeTo frame m ((key, value) :: rest) (.stop e m')
  | keyForever {m : Machine} {key value : Expr} {rest : List (Expr × Expr)}
      (hkey : key.ComesTo frame m .exhausted) :
      PairsComeTo frame m ((key, value) :: rest) .exhausted
  /-- A key comes to a value that cannot be one, and the value of the pair is not evaluated. -/
  | notHashable {m m' : Machine} {key value : Expr} {rest : List (Expr × Expr)} {v : Value}
      (hkey : key.ComesTo frame m (.done v m')) (hv : v.type.isKey = false) :
      PairsComeTo frame m ((key, value) :: rest) (.stop (.failed (.notHashable v.type)) m')
  /-- A value signals, and nothing after it is evaluated. -/
  | valueStops {m m' m'' : Machine} {key value : Expr} {rest : List (Expr × Expr)} {v : Value}
      {e : Signal} (hkey : key.ComesTo frame m (.done v m')) (hv : v.type.isKey = true)
      (hvalue : value.ComesTo frame m' (.stop e m'')) :
      PairsComeTo frame m ((key, value) :: rest) (.stop e m'')
  | valueForever {m m' : Machine} {key value : Expr} {rest : List (Expr × Expr)} {v : Value}
      (hkey : key.ComesTo frame m (.done v m')) (hv : v.type.isKey = true)
      (hvalue : value.ComesTo frame m' .exhausted) :
      PairsComeTo frame m ((key, value) :: rest) .exhausted
  /-- A pair comes to its two values, and the other pairs are evaluated after it. -/
  | pair {m m' m'' : Machine} {key value : Expr} {rest : List (Expr × Expr)} {v w : Value}
      {o : Outcome Signal Machine (List (Value × Value))}
      (hkey : key.ComesTo frame m (.done v m')) (hv : v.type.isKey = true)
      (hvalue : value.ComesTo frame m' (.done w m'')) (hrest : PairsComeTo frame m'' rest o) :
      PairsComeTo frame m ((key, value) :: rest) (o.map ((v, w) :: ·))

/-- An expression comes to something, be it that its evaluation never ends. -/
theorem Expr.exists_comesTo (frame : Frame) (m : Machine) (e : Expr) :
    ∃ o, e.ComesTo frame m o :=
  Settles.exists_of_grow (fun depth ↦ Eval.below_expression depth frame e) m

/-- Pairs come to something, be it that one of them never ends. -/
theorem exists_pairsComeTo (frame : Frame) (m : Machine) (pairs : List (Expr × Expr)) :
    ∃ o, PairsComeTo frame m pairs o := by
  induction pairs generalizing m with
  | nil => exact ⟨_, .nil⟩
  | cons p rest ih =>
    obtain ⟨key, value⟩ := p
    obtain ⟨o, hkey⟩ := key.exists_comesTo frame m
    cases o with
    | stop e m' => exact ⟨_, .keyStops hkey⟩
    | exhausted => exact ⟨_, .keyForever hkey⟩
    | done v m' =>
      cases hv : v.type.isKey with
      | false => exact ⟨_, .notHashable hkey hv⟩
      | true =>
        obtain ⟨o', hvalue⟩ := value.exists_comesTo frame m'
        cases o' with
        | stop e m'' => exact ⟨_, .valueStops hkey hv hvalue⟩
        | exhausted => exact ⟨_, .valueForever hkey hv hvalue⟩
        | done w m'' =>
          obtain ⟨o'', hrest⟩ := ih m''
          exact ⟨_, .pair hkey hv hvalue hrest⟩

/-- A value of a type that can be a key has one, and asking for it changes nothing. -/
theorem settles_requireKey {v : Value} (h : v.type.isKey = true) :
    ∃ k, v.key? = some k ∧
      ∀ m, Settles (fun _ ↦ Eval.ofExcept (requireKey v)) m (.done k m) := by
  obtain ⟨k, hk⟩ := Value.exists_key? h
  refine ⟨k, hk, fun m ↦ .of_forall fun _ ↦ ?_⟩
  rw [requireKey_eq_ok_iff.2 hk]
  rfl

/-- The evaluated pairs with their keys. -/
def keyed (ps : List (Value × Value)) : List (Key × Value) :=
  ps.filterMap fun p ↦ p.1.key?.map fun k ↦ (k, p.2)

theorem keyed_cons {v : Value} {k : Key} (hv : v.key? = some k) (w : Value)
    (ps : List (Value × Value)) : keyed ((v, w) :: ps) = (k, w) :: keyed ps := by
  simp [keyed, hv]

/-- **Evaluation adds what the pairs come to**, one after the other. -/
theorem PairsComeTo.settles {frame : Frame} {m : Machine} {pairs : List (Expr × Expr)}
    {o : Outcome Signal Machine (List (Value × Value))} (h : PairsComeTo frame m pairs o)
    (collected : List (Key × Value)) :
    Settles (fun depth ↦ Eval.entries depth frame collected pairs) m
      (o.map fun ps ↦ Dict.insertAll collected (keyed ps)) := by
  induction h generalizing collected with
  | nil => exact .succ (.of_forall fun _ ↦ rfl)
  | keyStops hkey => exact .succ (.bind_stop hkey)
  | keyForever hkey => exact .succ (.bind_exhausted hkey)
  | notHashable hkey hv =>
    refine .succ (.bind hkey (.bind_stop (.of_forall fun _ ↦ ?_)))
    rw [requireKey_of_not_isKey hv]
    rfl
  | valueStops hkey hv hvalue =>
    obtain ⟨k, -, hk⟩ := settles_requireKey hv
    exact .succ (.bind hkey (.bind (hk _) (.bind_stop hvalue)))
  | valueForever hkey hv hvalue =>
    obtain ⟨k, -, hk⟩ := settles_requireKey hv
    exact .succ (.bind hkey (.bind (hk _) (.bind_exhausted hvalue)))
  | @pair _ _ _ _ _ _ v w o hkey hv hvalue _ ih =>
    obtain ⟨k, hvk, hk⟩ := settles_requireKey hv
    have hcollect : (o.map ((v, w) :: ·)).map (fun ps ↦ Dict.insertAll collected (keyed ps)) =
        o.map fun ps ↦ Dict.insertAll (Dict.insert collected k w) (keyed ps) := by
      cases o <;> simp [Outcome.map, keyed_cons hvk, Dict.insertAll]
    rw [hcollect]
    exact .succ (.bind hkey (.bind (hk _) (.bind hvalue (ih _))))

/-- A hash literal is the map of what its pairs come to. -/
theorem PairsComeTo.hash {frame : Frame} {m : Machine} {pairs : List (Expr × Expr)}
    {o : Outcome Signal Machine (List (Value × Value))} (h : PairsComeTo frame m pairs o)
    (t : Token) :
    (Expr.hash t pairs).ComesTo frame m
      (o.map fun ps ↦ .hash (Dict.insertAll [] (keyed ps))) := by
  have hentries := h.settles []
  cases o with
  | done ps m' => exact .succ (.bind hentries (.of_forall fun _ ↦ rfl))
  | stop e m' => exact .succ (.bind_stop hentries)
  | exhausted => exact .succ (.bind_exhausted hentries)

/-! ## Indexing the result -/

/-- The value of the last pair whose key equals `x`. -/
def lastWith (ps : List (Value × Value)) (x : Value) : Option Value :=
  (ps.reverse.find? fun p ↦ p.1.same x).map Prod.snd

/-- What indexing with `x` has to give: the value of the last pair whose key equals `x`, `null` if
there is none, and an error if `x` cannot be a key. -/
def indexLast (ps : List (Value × Value)) (x : Value) : Except EvalError Value :=
  if x.type.isKey then .ok ((lastWith ps x).getD .null) else .error (.notHashable x.type)

/-- The last pair with a key is the last one whose key equals the value that the key is. -/
theorem last?_keyed {x : Value} {k : Key} (hx : x.key? = some k) (ps : List (Value × Value)) :
    Dict.last? (keyed ps) k = lastWith ps x := by
  induction ps with
  | nil => rfl
  | cons p ps ih =>
    obtain ⟨v, w⟩ := p
    have hsplit : lastWith ((v, w) :: ps) x =
        (lastWith ps x).or (if v.same x then some w else none) := by
      rw [lastWith, List.reverse_cons, List.find?_append, Option.map_or, lastWith,
        List.find?_singleton]
      by_cases hv : v.same x = true <;> simp [hv]
    simp only [hsplit, ← ih, Value.same_iff_key? hx]
    cases hv : v.key? with
    | none => simp [keyed, hv]
    | some j =>
      rw [keyed_cons hv, Dict.last?_cons]
      simp only [Option.some.injEq]

/-- Indexing the map of the pairs gives the last pair with the key. -/
theorem applyIndex_insertAll (ps : List (Value × Value)) (x : Value) :
    applyIndex (.hash (Dict.insertAll [] (keyed ps))) x = indexLast ps x := by
  rw [indexLast]
  cases hx : x.type.isKey with
  | false =>
    rw [applyIndex, requireKey_of_not_isKey hx]
    rfl
  | true =>
    obtain ⟨k, hk⟩ := Value.exists_key? hx
    rw [applyIndex, requireKey_eq_ok_iff.2 hk]
    dsimp only
    rw [entryAt, Dict.get?_insertAll, last?_keyed hk]
    simp [Dict.get?]

/-- **A hash literal is a map in which the last pair with a key counts.**

* Evaluating the literal comes to what its pairs come to, in the order of the source and up to the
  first thing that goes wrong.
* If nothing does, indexing the result with any value gives the value of the last pair whose key
  equals it, `null` if there is none, and an error if it cannot be a key.
* Two keys are the same exactly when the values that they come from are equal, and then these have
  the same type.  A key is the value that it comes from. -/
theorem hash_lastWins :
    (∀ frame m t pairs, (∃ o, PairsComeTo frame m pairs o) ∧
      ∀ o, PairsComeTo frame m pairs o →
        ∃ o', (Expr.hash t pairs).ComesTo frame m o' ∧
          o.Together
            (fun ps n v n' ↦ n' = n ∧ v.type = .hash ∧ ∀ x, applyIndex v x = indexLast ps x)
            (fun e n e' n' ↦ e' = e ∧ n' = n) o') ∧
    (∀ v w j k, requireKey v = .ok j → requireKey w = .ok k →
      (j = k ↔ v.same w = true) ∧ (j = k → v.type = w.type)) ∧
    (∀ v k, requireKey v = .ok k → k.toValue = v) ∧ ∀ k : Key, requireKey k.toValue = .ok k := by
  refine ⟨fun frame m t pairs ↦ ⟨exists_pairsComeTo frame m pairs, fun o ho ↦ ?_⟩, ?_, ?_, ?_⟩
  · refine ⟨_, ho.hash t, ?_⟩
    cases o with
    | done ps n => exact ⟨rfl, rfl, applyIndex_insertAll ps⟩
    | stop e n => exact ⟨rfl, rfl⟩
    | exhausted => trivial
  · intro v w j k hv hw
    rw [requireKey_eq_ok_iff] at hv hw
    refine ⟨?_, ?_⟩
    · rw [Value.same_iff_key? hw, hv, Option.some_inj]
    · rintro rfl
      rw [← Key.toValue_of_key? hv, ← Key.toValue_of_key? hw]
  · exact fun v k hv ↦ Key.toValue_of_key? (requireKey_eq_ok_iff.1 hv)
  · exact fun k ↦ requireKey_eq_ok_iff.2 (Value.key?_toValue k)

end MonkeyLang
