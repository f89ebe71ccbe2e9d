import MonkeyLang.Proofs.Eval.Genuine
import MonkeyLang.Proofs.Parse.Literals
import MonkeyLang.Proofs.Session.Client
import MonkeyLang.Proofs.Value.Equal

/-!
# Equality of what a client holds

A client compares values with `Value.same`, which does not look at the parameters and the body of a
function but at its origin and its scope only.  This is no loss, as long as functions come from
evaluations: the functions that a client holds all come from literals of the programs that were
read, and a text has one literal at a place at most.  So functions with the same origin have the
same parameters and the same body (`Client.Genuine.agree`).

The other direction is not a theorem, and it should not be one.  Functions with the same parameters
and the same body are different if their literals are, and then they are unequal although nobody
could tell them apart by calling them.  What makes functions of one literal equal is that a program
that is kept has its number for good: two evaluations of it in one scope give equal functions, and
two runs of its text do not.  The example at the end shows both.

A client is *honest* if it makes up no functions: the values that it binds are made of functions
that it holds.  For all that an honest client can hold, equality is an equivalence that everything
a client can see of values respects, and all operations: `client_equality`.

## The invariant

`Client.Genuine texts` says that everything in the client's hands comes from the programs in the
list `texts`, where the program number `n` is what is read of the text number `n`.  The list only
grows, by one text whenever one is read, and what is genuine for a list is so for every longer one.
The clause for the programs that are kept is what allows them to be evaluated much later, when many
other texts were read: their nodes are still found under their own number.
-/

set_option autoImplicit false

namespace MonkeyLang

/-! ## Honest clients -/

namespace Client

/-- A function lies in a value that is bound in some scope, or in one that the client was given.
It may lie in the value at any depth. -/
def Holds (c : Client) (f : Closure) : Prop :=
  c.machine.store.Holds f ∨ ∃ v ∈ c.values, f ∈ v.closures

/-- The value is made of functions that the client holds, and its hashes are in key order.  Data
that is put together from what a client owns is its own too, as long as hashes are in key order. -/
def Owns (c : Client) (v : Value) : Prop := v.Throughout Dict.Increasing c.Holds

/-- The value is made of functions that the client holds, and the pairs of its hashes, which have
different keys, are listed in any order. -/
def OwnsListed (c : Client) (v : Value) : Prop := v.Throughout Dict.Distinct c.Holds

/-- A client that does anything but make up functions: what it binds is its own.  It can keep
programs and evaluate them at any time.  With a function that is put together from its parts, with
a place and a number of one's own choice, equal origins would mean nothing. -/
inductive Honest : Client → Prop
  | start : Honest start
  | act {c c' : Client} {depth : Nat} {action : ClientAction} (h : Honest c)
      (hset : ∀ k name v, action = .set k name v → c.Owns v)
      (hact : c.act depth action = some c') : Honest c'

end Client

/-! ## The code of the texts that were read -/

/-- The nodes of the program that a text holds, by the number of the text in the order of reading.
Programs are numbered as their texts are read, and the list of texts is the memory of that. -/
def codeOf (texts : List String) (unit : Nat) : List Node :=
  match texts[unit]? with
  | some text => (parse text).program.nodes
  | none => []

/-- A text that is read later adds its nodes under a new number.  The nodes that were there under
other numbers are still there. -/
theorem codeOf_append (texts : List String) (text : String) (unit : Nat) :
    codeOf texts unit ⊆ codeOf (texts ++ [text]) unit := by
  rw [codeOf]
  split
  · rename_i old hold
    obtain ⟨hlt, -⟩ := List.getElem?_eq_some_iff.1 hold
    rw [codeOf, List.getElem?_append_left hlt, hold]
    exact List.Subset.refl _
  · exact List.nil_subset _

theorem codeOf_length (texts : List String) (text : String) :
    codeOf (texts ++ [text]) texts.length = (parse text).program.nodes := by
  rw [codeOf, List.getElem?_concat_length]

/-- **Functions that come from the same literal agree.** The number says which program, and the
place says which literal of it. -/
theorem Closure.MadeFrom.agree {texts : List String} {f g : Closure}
    (hf : f.MadeFrom (codeOf texts)) (hg : g.MadeFrom (codeOf texts)) : f.Agree g := by
  intro horigin
  obtain ⟨t, ids, hnode, hposition, hparameters⟩ := hf.literal
  obtain ⟨t', ids', hnode', hposition', hparameters'⟩ := hg.literal
  -- both literals stand in the text that the origin names
  rw [← horigin] at hnode' hposition'
  rw [codeOf] at hnode hnode'
  split at hnode
  · rename_i text htext
    rw [htext] at hnode'
    have heq := eq_of_literal_position hnode hnode' rfl rfl (hposition.symm.trans hposition')
    obtain ⟨-, rfl, hbody⟩ := Expr.function.inj (Node.expr.inj heq)
    exact ⟨hparameters.trans hparameters'.symm, hbody⟩
  · cases hnode

/-! ## What a client holds is genuine -/

/-- Everything that the client holds comes from these texts, which are those that were read.  The
programs that it keeps are in there too, each under its number.  This is the invariant, and there
is a lemma for each thing that an action does.  The list of texts is longer after an action that
reads one, and the same after all others. -/
structure Client.Genuine (texts : List String) (c : Client) : Prop where
  units : c.machine.units = texts.length
  store : c.machine.store.Genuine (codeOf texts)
  values : ∀ v ∈ c.values, v.Genuine (codeOf texts)
  programs : ∀ r ∈ c.programs, r.program.nodes ⊆ codeOf texts r.number

namespace Client.Genuine

variable {texts : List String} {c c' : Client}

theorem start : Client.start.Genuine [] where
  units := rfl
  store := .empty
  values := by simp [Client.start]
  programs := by simp [Client.start]

/-- Functions that a client holds come from literals. -/
theorem held (h : c.Genuine texts) {f : Closure} (hf : c.Holds f) :
    f.MadeFrom (codeOf texts) := by
  rcases hf with hstore | ⟨v, hv, hfv⟩
  · obtain ⟨v, hv, hfv⟩ := Store.holds_iff.1 hstore
    exact (h.store v hv).of_mem_closures f hfv
  · exact (h.values v hv).of_mem_closures f hfv

/-- Functions with the same origin have the same parameters and the same body. -/
theorem agree (h : c.Genuine texts) {f g : Closure} (hf : c.Holds f) (hg : c.Holds g) :
    f.Agree g :=
  (h.held hf).agree (h.held hg)

theorem of_owns (h : c.Genuine texts) {v : Value} (hv : c.Owns v) : v.Genuine (codeOf texts) :=
  Value.Throughout.impFunctions hv fun _ _ hf ↦ h.held hf

/-- Reading a text gives it the next number. -/
theorem read (h : c.Genuine texts) (text : String) :
    Client.Genuine (texts ++ [text])
      { c with machine := (c.machine.keep (parse text).program).2 } where
  units := by
    rw [List.length_append, ← h.units]
    rfl
  store := h.store.mono (codeOf_append texts text)
  values v hv := (h.values v hv).mono (codeOf_append texts text)
  programs r hr := List.Subset.trans (h.programs r hr) (codeOf_append texts text r.number)

/-- The program that was just read is found under its number. -/
theorem nodes_read (h : c.Genuine texts) (text : String) :
    (parse text).program.nodes ⊆
      codeOf (texts ++ [text]) (c.machine.keep (parse text).program).1.number := by
  rw [show (c.machine.keep (parse text).program).1.number = texts.length from h.units,
    codeOf_length]
  exact List.Subset.refl _

/-- A program that is kept is found under its number. -/
theorem keep (h : c.Genuine texts) (text : String) :
    (c.keep (parse text).program).Genuine (texts ++ [text]) where
  units := (h.read text).units
  store := (h.read text).store
  values := (h.read text).values
  programs := List.forall_mem_append.2
    ⟨(h.read text).programs, List.forall_mem_singleton.2 (h.nodes_read text)⟩

/-- Evaluating a program does not need another text, however often it was done before. -/
theorem eval (h : c.Genuine texts) {depth : Nat} {scope : ScopeId} {r : Reading}
    (hcode : r.program.nodes ⊆ codeOf texts r.number)
    (hfinish : c.finish (r.eval depth scope c.machine) = some c') : c'.Genuine texts := by
  have heval := r.genuine_eval depth scope h.store hcode
  rcases finish_eq_some hfinish with ⟨v, m, hdone, rfl⟩ | ⟨e, m, hstop, rfl⟩
  · rw [hdone] at heval
    obtain ⟨hstore, hunits, hv⟩ := heval
    refine ⟨hunits.trans h.units, hstore, ?_, h.programs⟩
    exact List.forall_mem_append.2 ⟨h.values, List.forall_mem_singleton.2 hv⟩
  · rw [hstop] at heval
    obtain ⟨hstore, hunits, -⟩ := heval
    exact ⟨hunits.trans h.units, hstore, h.values, h.programs⟩

/-- **One action keeps everything genuine**, if the client binds only what is its own. -/
theorem act (h : c.Genuine texts) {depth : Nat} {action : ClientAction}
    (hset : ∀ k name v, action = .set k name v → c.Owns v)
    (hact : c.act depth action = some c') : ∃ texts', c'.Genuine texts' := by
  cases does_of_act hact with
  | newScope | enclose => exact ⟨texts, h.units, h.store.add (by simp), h.values, h.programs⟩
  | copy => exact ⟨texts, h.units, h.store, h.values, h.programs⟩
  | set =>
    have hv := h.of_owns (hset _ _ _ rfl)
    exact ⟨texts, h.units, h.store.bind _ _ hv, h.values, h.programs⟩
  | refused => exact ⟨texts, h⟩
  | @run _ text _ _ _ hfinish | @eval _ text _ _ _ hfinish =>
    rw [finish_eval] at hfinish
    exact ⟨texts ++ [text], (h.read text).eval (h.nodes_read text) hfinish⟩
  | @keep text => exact ⟨texts ++ [text], h.keep text⟩
  | evalKept _ hr hfinish => exact ⟨texts, h.eval (h.programs _ hr) hfinish⟩

end Client.Genuine

/-- All that an honest client holds comes from the texts that were read.  By induction on how the
client came about, with `Client.Genuine.act` for the step. -/
theorem Client.Honest.genuine {c : Client} (h : c.Honest) : ∃ texts, c.Genuine texts := by
  induction h with
  | start => exact ⟨[], .start⟩
  | act _ hset hact ih =>
    obtain ⟨texts, hgenuine⟩ := ih
    exact hgenuine.act hset hact

/-- A client that binds nothing itself is honest. -/
theorem Client.Honest.acts {c c' : Client} {depth : Nat} {actions : List ClientAction}
    (h : c.Honest) (hset : ∀ action ∈ actions, ∀ k name v, action ≠ .set k name v)
    (hacts : Client.acts depth actions c = some c') : c'.Honest := by
  induction actions generalizing c with
  | nil =>
    cases hacts
    exact h
  | cons action rest ih =>
    obtain ⟨c₁, hact, hrest⟩ := acts_cons hacts
    rw [List.forall_mem_cons] at hset
    exact ih (h.act (fun k name v heq ↦ absurd heq (hset.1 k name v)) hact) hset.2 hrest

/-! ## Equality of what a client owns

Equality of data has all the properties that are wanted, for any values.  What is left to show is
that it is what a host computes, which takes hashes in key order, and that functions with the same
origin agree. -/

theorem Client.OwnsListed.distinct {c : Client} {v : Value} (h : c.OwnsListed v) : v.Distinct :=
  Value.Throughout.impFunctions h fun _ _ _ ↦ trivial

namespace Client.Owns

variable {c : Client} {v w : Value}

theorem ordered (h : c.Owns v) : v.Ordered :=
  Value.Throughout.impFunctions h fun _ _ _ ↦ trivial

theorem listed (h : c.Owns v) : c.OwnsListed v :=
  Value.Throughout.imp h (fun _ hes ↦ hes.distinct) fun _ _ hf ↦ hf

/-- For what a client owns, the comparison is equality of data.  Without order the comparison would
depend on how a hash came about. -/
theorem same_iff (hv : c.Owns v) (hw : c.Owns w) : v.same w = true ↔ v.Equal w :=
  hv.ordered.same_iff hw.ordered

end Client.Owns

/-- Insertions of pairs with equal last values for each key make equal hashes. -/
theorem equal_insertAll {ps qs : List (Key × Value)}
    (h : ∀ k, Option.Rel Value.Equal (Dict.last? ps k) (Dict.last? qs k)) :
    (Value.hash (Dict.insertAll [] ps)).Equal (.hash (Dict.insertAll [] qs)) := by
  refine Value.Equal.hash_iff.2 fun k ↦ ?_
  simp only [Dict.get?_insertAll, Dict.get?, Option.or_none]
  exact h k

section Operations

variable {c : Client}

theorem Client.hereditary_owns : Value.Hereditary c.Owns := Value.hereditary_throughout

theorem same_applyIndex {a a' b b' : Value} (ha : c.Owns a) (ha' : c.Owns a') (hb : c.Owns b)
    (hb' : c.Owns b') (haa : a.same a' = true) (hbb : b.same b' = true) :
    AlikeResults (fun v w ↦ v.same w = true) (applyIndex a b) (applyIndex a' b') := by
  rw [ha.same_iff ha'] at haa
  rw [hb.same_iff hb'] at hbb
  refine (Value.Equal.congruence.applyIndex haa hbb).imp fun v w hv hw hvw ↦ ?_
  have hown : c.Owns v := Client.hereditary_owns.applyIndex ha hb hv
  exact (hown.same_iff (Client.hereditary_owns.applyIndex ha' hb' hw)).2 hvw

theorem same_builtin (b : Builtin) {vs ws : List Value} (hvs : ∀ v ∈ vs, c.Owns v)
    (hws : ∀ w ∈ ws, c.Owns w) (h : sameValues vs ws = true) :
    AlikeResults (fun v w ↦ v.same w = true) (b.result vs) (b.result ws) := by
  have hequal : List.Forall₂ Value.Equal vs ws :=
    (forall₂_iff_of_mem fun v hv w hw ↦ (hvs v hv).same_iff (hws w hw)).1
      (sameValues_iff.1 h)
  refine (Value.Equal.congruence.builtin_result b hequal).imp fun v w hv hw hvw ↦ ?_
  have hown : c.Owns v := Client.hereditary_owns.builtin_result b hvs hv
  exact (hown.same_iff (Client.hereditary_owns.builtin_result b hws hw)).2 hvw

end Operations

/-- **Equality is an equivalence that everything respects**, for all that an honest client holds.

* What came out of runs and what is bound is the client's own.
* Functions with the same origin have the same parameters and the same body.
* Equality is reflexive, symmetric and transitive, and it is equality of data: the order in which
  the pairs of a hash were inserted does not count.
* Equal values have the same type, truth value and text, in whatever order the pairs of their hashes
  are listed.
* Indexing and the builtin functions give equal results for equal operands, or the same error.
* If the operator `==` yields true, the operands are equal. -/
theorem client_equality {c : Client} (hc : c.Honest) :
    ((∀ v ∈ c.values, c.Owns v) ∧ ∀ v, c.machine.store.Binds v → c.Owns v) ∧
    (∀ f g, c.Holds f → c.Holds g → f.origin = g.origin →
      f.parameters = g.parameters ∧ f.body = g.body) ∧
    ((∀ v, c.Owns v → v.same v = true) ∧
      (∀ v w, c.Owns v → c.Owns w → v.same w = true → w.same v = true) ∧
      ∀ u v w, c.Owns u → c.Owns v → c.Owns w → u.same v = true → v.same w = true →
        u.same w = true) ∧
    (∀ v w, c.Owns v → c.Owns w → (v.same w = true ↔ v.Equal w)) ∧
    (∀ ps qs, (∀ k, Option.Rel Value.Equal (Dict.last? ps k) (Dict.last? qs k)) →
      (Value.hash (Dict.insertAll [] ps)).Equal (.hash (Dict.insertAll [] qs))) ∧
    (∀ v w, c.OwnsListed v → c.OwnsListed w → v.Equal w →
      v.type = w.type ∧ v.truthy = w.truthy ∧ v.display = w.display) ∧
    (∀ a a' b b', c.Owns a → c.Owns a' → c.Owns b → c.Owns b' → a.same a' = true →
      b.same b' = true →
        AlikeResults (fun v w ↦ v.same w = true) (applyIndex a b) (applyIndex a' b')) ∧
    (∀ (b : Builtin) vs ws, (∀ v ∈ vs, c.Owns v) → (∀ w ∈ ws, c.Owns w) →
      sameValues vs ws = true →
        AlikeResults (fun v w ↦ v.same w = true) (b.result vs) (b.result ws)) ∧
    ∀ v w, applyBinary .equal v w = .ok (.bool true) → v.same w = true := by
  obtain ⟨texts, hgenuine⟩ := hc.genuine
  refine ⟨⟨?_, ?_⟩, fun f g hf hg ↦ hgenuine.agree hf hg, ⟨?_, ?_, ?_⟩,
    fun v w ↦ Client.Owns.same_iff, fun ps qs ↦ equal_insertAll, ?_,
    fun a a' b b' ↦ same_applyIndex, fun b vs ws ↦ same_builtin b,
    fun v w ↦ Value.same_of_applyBinary⟩
  · exact fun v hv ↦ Value.Throughout.impFunctions (hgenuine.values v hv)
      fun f hf _ ↦ .inr ⟨v, hv, hf⟩
  · exact fun v hv ↦ Value.Throughout.impFunctions (hgenuine.store v hv)
      fun f hf _ ↦ .inl (Store.holds_iff.2 ⟨v, hv, hf⟩)
  · exact fun v hv ↦ (hv.same_iff hv).2 (.refl v)
  · exact fun v w hv hw h ↦ (hw.same_iff hv).2 ((hv.same_iff hw).1 h).symm
  · exact fun u v w hu hv hw huv hvw ↦
      (hu.same_iff hw).2 (((hu.same_iff hv).1 huv).trans ((hv.same_iff hw).1 hvw))
  -- type and truth are seen in the outermost layer, and the text needs equal functions to agree
  · intro v w hv hw h
    have hlayer := Value.Equal.congruence.layer h
    refine ⟨hlayer.type_eq.symm, hlayer.truthy_eq.symm, ?_⟩
    refine h.display_eq hv.distinct hw.distinct fun f hf g hg ↦ hgenuine.agree ?_ ?_
    · exact hv.of_mem_closures f hf
    · exact hw.of_mem_closures g hg

/-- A client keeps a program that makes a hash with a function in it, and evaluates it twice.  Both
hashes are equal, and so is a third one whose pairs were written in the other order.  The hash that
comes from reading the same text once more holds a function of its own and equals none of them. -/
theorem client_equality_order :
    ∃ (c : Client) (u v w z : Value), c.Honest ∧ c.values = [u, v, w, z] ∧
      u.closures.length = 2 ∧ u.same v = true ∧ u.same w = true ∧ u.same z = false ∧
      u.display = v.display ∧ u.display = w.display := by
  have hacts : (Client.acts 10
      [.newScope, .keep "let f=fn(x)\x7bx\x7d;\x7b1:f,true:[f]\x7d", .evalKept 0 0,
        .evalKept 0 0, .run 0 "\x7btrue:[f],1:f\x7d",
        .run 0 "let f=fn(x)\x7bx\x7d;\x7b1:f,true:[f]\x7d"] Client.start).map
      (fun c ↦ c.values.map fun u ↦ (u.closures.length, c.values.map u.same)) =
      some [(2, [true, true, true, false]), (2, [true, true, true, false]),
        (2, [true, true, true, false]), (2, [false, false, false, true])] := by cbv
  obtain ⟨c, hc, hseen⟩ := Option.map_eq_some_iff.1 hacts
  have hhonest : c.Honest := Client.Honest.start.acts (by simp) hc
  obtain ⟨u, v, w, z, hvalues⟩ : ∃ u v w z, c.values = [u, v, w, z] :=
    List.length_eq_four.1 (by simpa using congrArg List.length hseen)
  simp only [hvalues, List.map_cons, List.map_nil, List.cons.injEq, Prod.mk.injEq] at hseen
  obtain ⟨⟨hlength, -, hv, hw, hz, -⟩, -⟩ := hseen
  obtain ⟨⟨hown, -⟩, -, -, hiff, -, hlook, -⟩ := client_equality hhonest
  rw [hvalues] at hown
  simp only [List.mem_cons, forall_eq_or_imp] at hown
  obtain ⟨hu, hv', hw', -⟩ := hown
  obtain ⟨-, -, hdisplay⟩ := hlook u v hu.listed hv'.listed ((hiff u v hu hv').1 hv)
  obtain ⟨-, -, hdisplay'⟩ := hlook u w hu.listed hw'.listed ((hiff u w hu hw').1 hw)
  exact ⟨c, u, v, w, z, hhonest, hvalues, hlength, hv, hw, hz, hdisplay, hdisplay'⟩

end MonkeyLang
