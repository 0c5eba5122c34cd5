/-
# What mutating natives change

An operation that changes an array or a dict changes the one that is its first
argument. What it hands back is new. So of the arrays and dicts that are there, a call
of such a native changes no other, except those that the compare function of a sort
changes (`callNative_changesOnly`).

Which arrays and dicts a computation may change is a condition on values. The class
`Eval.Confined` says that the others stay as they are on every machine; it passes
through a computation step by step. A compare function is a function of the script, and
what it changes depends on the machine. So it is followed through the sort from the
machine on which the array is emptied, one question after another (`Harmless`,
`Dialogue.changesOnly`).

Calls of mutating natives one after another change what one of them may change
(`Mutations.changesOnly`).

Key definitions: `Heap.ChangesOnly`, `Eval.Confined`, `Operation.mutates`, `Harmless`,
`Mutations`.
Key theorems: `Heap.ChangesOnly.trans`, `Dialogue.changesOnly`, `callNative_changesOnly`,
`Mutations.changesOnly`.
-/
import RuleScript.Proofs.Library.Sort
import RuleScript.Proofs.Sorting.Dialogue

namespace RuleScript

open Eval (Looks)

/-! ### What changes in a heap -/

/-- Of the arrays and dicts that are in the first heap, those that do not satisfy `C` are
as they were in the second. -/
structure Heap.ChangesOnly (C : Value → Prop) (h h' : Heap) : Prop where
  arrays : h.arrays.size ≤ h'.arrays.size
  dicts : h.dicts.size ≤ h'.dicts.size
  items : ∀ r, h.Allocated (.array r) → ¬C (.array r) → h'.items r = h.items r
  dict : ∀ r, h.Allocated (.dict r) → ¬C (.dict r) → h'.dict r = h.dict r

namespace Heap.ChangesOnly

variable {C : Value → Prop} {h h' h'' : Heap}

theorem refl (h : Heap) : h.ChangesOnly C h :=
  ⟨Nat.le_refl _, Nat.le_refl _, fun _ _ _ => rfl, fun _ _ _ => rfl⟩

theorem trans (h₁ : h.ChangesOnly C h') (h₂ : h'.ChangesOnly C h'') : h.ChangesOnly C h'' where
  arrays := Nat.le_trans h₁.arrays h₂.arrays
  dicts := Nat.le_trans h₁.dicts h₂.dicts
  items r hr hC := by
    have hr' : h'.Allocated (.array r) := Nat.lt_of_lt_of_le hr h₁.arrays
    exact (h₂.items r hr' hC).trans (h₁.items r hr hC)
  dict r hr hC := by
    have hr' : h'.Allocated (.dict r) := Nat.lt_of_lt_of_le hr h₁.dicts
    exact (h₂.dict r hr' hC).trans (h₁.dict r hr hC)

/-- What is added changes nothing that was there. -/
theorem of_adds (hadds : h.Adds h') : h.ChangesOnly C h' :=
  ⟨hadds.arrays, hadds.dicts, fun r hr _ => hadds.items r hr, fun r hr _ => hadds.dict r hr⟩

/-- More may have changed, and what was not there does not count. -/
theorem imp {D : Value → Prop} (hc : h.ChangesOnly C h')
    (hCD : ∀ w, w.isAggregate = true → h.Allocated w → C w → D w) : h.ChangesOnly D h' where
  arrays := hc.arrays
  dicts := hc.dicts
  items r hr hD := hc.items r hr fun hC => hD (hCD _ rfl hr hC)
  dict r hr hD := hc.dict r hr fun hC => hD (hCD _ rfl hr hC)

theorem modifyArray {r : ArrayRef} (hC : C (.array r)) (f : ArrayCell → ArrayCell) :
    h.ChangesOnly C { h with arrays := h.arrays.modify r.index f } where
  arrays := Nat.le_of_eq Array.size_modify.symm
  dicts := Nat.le_refl _
  items r' _ hr' := by
    have hindex : r.index ≠ r'.index := by
      intro hindex
      have heq : r' = r := congrArg ArrayRef.mk hindex.symm
      exact hr' (heq ▸ hC)
    exact items_modify_of_ne hindex f
  dict _ _ _ := rfl

theorem setDict {r : DictRef} (hC : C (.dict r)) (t : Table Value) : h.ChangesOnly C (h.setDict r t) where
  arrays := Nat.le_refl _
  dicts := Nat.le_of_eq Array.size_setIfInBounds.symm
  items _ _ _ := rfl
  dict r' _ hr' := by
    have hindex : r.index ≠ r'.index := by
      intro hindex
      have heq : r' = r := congrArg DictRef.mk hindex.symm
      exact hr' (heq ▸ hC)
    exact dict_setDict_of_ne hindex t

end Heap.ChangesOnly

/-! ### Computations that change no other arrays and dicts -/

/-- A computation that changes no array or dict but those that satisfy `C`, even if it
stops. -/
class Eval.Confined {α : Type} (C : Value → Prop) (x : Eval α) : Prop where
  changes : ∀ m : Machine, m.heap.ChangesOnly C (x m).2.heap

namespace Eval.Confined

variable {α β : Type} {C : Value → Prop}

/-- What adds to the heap changes nothing. -/
instance of_adding {x : Eval α} [hx : Eval.Adding x] : Confined C x where
  changes m := by
    obtain ⟨h, hm, hadds⟩ := hx.adds m
    rw [hm]
    exact .of_adds hadds

instance bind {x : Eval α} {f : α → Eval β} [hx : Confined C x] [hf : ∀ a, Confined C (f a)] :
    Confined C (x >>= f) where
  changes m := by
    have hfirst := hx.changes m
    rw [Eval.bind_run]
    rcases hr : x m with ⟨stop | a, m₁⟩
    · rw [hr] at hfirst
      exact hfirst
    · rw [hr] at hfirst
      exact hfirst.trans ((hf a).changes m₁)

instance ite {c : Prop} [Decidable c] {x y : Eval α} [Confined C x] [Confined C y] :
    Confined C (if c then x else y) := by
  split <;> infer_instance

instance setItems {r : ArrayRef} [hC : Fact (C (.array r))] (xs : List Value) :
    Confined C (modifyHeap (·.setItems r xs)) := ⟨fun _ => .modifyArray hC.out _⟩

instance addItems {r : ArrayRef} [hC : Fact (C (.array r))] (f : Heap → List Value) :
    Confined C (modifyHeap fun h => h.addItems r (f h)) := ⟨fun _ => .modifyArray hC.out _⟩

instance setDict {r : DictRef} [hC : Fact (C (.dict r))] (f : Heap → Table Value) :
    Confined C (modifyHeap fun h => h.setDict r (f h)) := ⟨fun _ => .setDict hC.out _⟩

instance newFunction (f : Function) : Confined C (newFunction f) :=
  ⟨fun _ => ⟨Nat.le_refl _, Nat.le_refl _, fun _ _ _ => rfl, fun _ _ _ => rfl⟩⟩

end Eval.Confined

open Eval (Confined)

section

variable {C : Value → Prop} (s : Site)

/-! ### Handing back -/

/-- To change only what satisfies `C` passes from the steps to what is put
together from them. -/
theorem confined_receives : s.Receives (Confined C) where
  pure _ := inferInstance
  exhausted := inferInstance
  onHeap _ := inferInstance
  bind _ _ := inferInstance
  newArray _ := inferInstance
  newDict _ := inferInstance
  tooLarge := inferInstance
  fail _ := inferInstance
  newFunction _ := inferInstance

/-! ### Sorting -/

variable {s} {I : Machine → Prop} {lt : Comparison} {m : Machine} {r : ArrayRef}

/-- A dialogue changes what its comparison may change. `I` is what is true of the machine
at each question. -/
theorem Dialogue.changesOnly {α γ : Type} {P : Value → Prop} {done : α → Prop} {halt : γ → Stop → α}
    {F : Comparison → Eval α} (hF : Dialogue P done halt F)
    (hlt : ∀ x y m, I m → m.heap.ChangesOnly C (lt x y m).2.heap ∧ I (lt x y m).2) (hm : I m) :
    m.heap.ChangesOnly C (F lt m).2.heap := by
  induction hF generalizing m with
  | answer => exact .refl m.heap
  | @ask x y _ _ next _ _ ih =>
    obtain ⟨hfirst, hI⟩ := hlt x y m hm
    dsimp only [Eval.elseHalt]
    rcases hr : lt x y m with ⟨stop | b, m₁⟩
    · rw [hr] at hfirst
      exact hfirst
    · rw [hr] at hfirst hI
      exact hfirst.trans (ih b hI)

/-- A sort changes its array and what its comparison may change. -/
theorem sortArray_changesOnly (hr : C (.array r))
    (hlt : ∀ x y m, I m → m.heap.ChangesOnly C (lt x y m).2.heap ∧ I (lt x y m).2)
    (hI : I (m.emptied r)) : m.heap.ChangesOnly C (sortArray s r lt m).2.heap := by
  obtain ⟨⟨ys, stop⟩, m₁, hrun, -, -⟩ :=
    Sorting.sortItems_conserves lt (m.heap.items r) (m.emptied r) trivial
  have hvalues : ∀ v ∈ m.heap.items r, (fun _ => True) v := fun _ _ => trivial
  have hdialogue := sortItems_dialogue (P := fun _ => True) trivial hvalues
  have hsort := hdialogue.changesOnly hlt hI
  rw [hrun] at hsort
  rw [sortArray_run hrun, (concludeSort_run _ _ _).1]
  have hempty : m.heap.ChangesOnly C (m.emptied r).heap := .modifyArray hr _
  exact (hempty.trans hsort).trans (.modifyArray hr _)

theorem callbackLess_machine (s : Site) (g : FunctionRef) (x y : Value) (m : Machine) :
    (callbackLess s g x y m).2 = (s.invoke g [x, y] m).2 := by
  unfold callbackLess
  rw [Eval.bind_run]
  rcases s.invoke g [x, y] m with ⟨stop | v, m₁⟩
  · rfl
  · cases v <;> rfl

theorem plainLess_machine (x y : Value) (m : Machine) : (plainLess x y m).2 = m := by
  unfold plainLess
  split <;> rfl

/-! ### Mutating natives -/

/-- The operations that change the array or the dict that is their first argument. -/
def Operation.mutates : Operation → Bool
  | .array .clear | .array .insert | .array .pop | .array .push | .array .remove | .array .set
  | .array .shift | .array .sort | .array .unshift => true
  | .dict .set | .dict .remove => true
  | _ => false

/-- If an array and a compare function are given, then on every machine that questions
to the function lead to, from the one with the array emptied, the function changes what
it may. `I` holds of these machines. -/
def Harmless (C : Value → Prop) (s : Site) (v : Value) (args : List Value) (m : Machine) : Prop :=
  ∀ r g, v = .array r → args.head? = some (.function g) →
    ∃ I : Machine → Prop, I (m.emptied r) ∧ ∀ x y m', I m' →
      m'.heap.ChangesOnly C (s.invoke g [x, y] m').2.heap ∧ I (s.invoke g [x, y] m').2

variable {v : Value} {args : List Value}

theorem changesOnly_look {α β : Type} {x : Eval α} [hx : Looks x] {k : α → Eval β}
    (hk : ∀ a, x m = (.ok a, m) → m.heap.ChangesOnly C (k a m).2.heap) :
    m.heap.ChangesOnly C ((x >>= k) m).2.heap := by
  have hm := (hx.run m).1
  rw [Eval.bind_run]
  rcases hr : x m with ⟨stop | a, m₁⟩
  · rw [hr] at hm
    obtain rfl : m₁ = m := hm
    exact .refl m₁.heap
  · rw [hr] at hm
    obtain rfl : m₁ = m := hm
    exact hk a hr

theorem ArrayOp.run_changesOnly {op : ArrayOp} (hop : (Operation.array op).mutates = true) (hv : C v)
    (hargs : Harmless C s v args m) : m.heap.ChangesOnly C (op.run s (v :: args) m).2.heap := by
  cases op with
  | clear | insert | pop | push | set | shift | unshift =>
    unfold ArrayOp.run
    refine changesOnly_look fun r hr => ?_
    have : Fact (C (.array r)) := ⟨Site.array_eq hr ▸ hv⟩
    exact Confined.changes m
  | remove =>
    unfold ArrayOp.run removeItems
    refine changesOnly_look fun r hr => ?_
    have : Fact (C (.array r)) := ⟨Site.array_eq hr ▸ hv⟩
    refine changesOnly_look fun index _ => changesOnly_look fun xs _ => changesOnly_look fun start _ => ?_
    refine @Confined.changes _ C _ ?_ m
    split <;> infer_instance
  | sort =>
    unfold ArrayOp.run
    refine changesOnly_look fun r hr => ?_
    obtain rfl := Site.array_eq hr
    cases args with
    | nil =>
      refine changesOnly_look fun xs _ => ?_
      by_cases hplain : isPlain xs = true
      · rw [if_pos hplain]
        refine sortArray_changesOnly (I := fun _ => True) hv (fun x y m' _ => ?_) trivial
        rw [plainLess_machine]
        exact ⟨.refl m'.heap, trivial⟩
      · rw [if_neg hplain]
        exact .refl m.heap
    | cons w rest =>
      refine changesOnly_look fun g hg => ?_
      obtain rfl := Site.function_eq hg
      obtain ⟨I, hI, hquestions⟩ := hargs r g rfl rfl
      refine sortArray_changesOnly (I := I) hv (fun x y m' hm' => ?_) hI
      rw [callbackLess_machine]
      exact hquestions x y m' hm'
  | clone | create | filter | flat | forEach | includes | indexOf | lastIndexOf | map | ofValues
  | sizeOf | slice | unpack => cases hop

theorem DictOp.run_changesOnly {op : DictOp} (hop : (Operation.dict op).mutates = true) (hv : C v) :
    m.heap.ChangesOnly C (op.run s (v :: args) m).2.heap := by
  cases op with
  | set | remove =>
    unfold DictOp.run
    refine changesOnly_look fun r hr => ?_
    have : Fact (C (.dict r)) := ⟨Site.dict_eq hr ▸ hv⟩
    exact Confined.changes m
  | clone | has | keys | merge | values => cases hop

/-- **A call of a mutating native changes its first argument**, and what its compare
function may change. -/
theorem callNative_changesOnly {f : NativeFunction} (hf : f.operation.mutates = true) (hv : C v)
    (hargs : Harmless C s v args m) : m.heap.ChangesOnly C (callNative s f (v :: args) m).2.heap := by
  have hrun : m.heap.ChangesOnly C (f.operation.run s (v :: args) m).2.heap := by
    cases hop : f.operation with
    | array op => exact ArrayOp.run_changesOnly (hop ▸ hf) hv hargs
    | dict op => exact DictOp.run_changesOnly (hop ▸ hf) hv
    | core | string | math | data | probe | branch | loop | method | idle =>
      rw [hop] at hf
      cases hf
  by_cases hadmits : f.arity.admits (v :: args).length = true
  · rcases hresult : f.operation.run s (v :: args) m with ⟨stop | p, m₁⟩
    · obtain ⟨stop', hcall⟩ := callNative_of_error s _ hadmits hresult
      rw [hresult] at hrun
      rw [hcall]
      exact hrun
    · rw [callNative_of_ok hadmits hresult]
      rw [hresult] at hrun
      exact hrun.trans ((Site.receive_of_receives (confined_receives s) _ p).changes m₁)
  · unfold callNative
    rw [if_neg hadmits]
    exact .refl m.heap

end

/-- Some calls of mutating natives one after another, each at a value that satisfies
`T`, with compare functions that change no others. -/
inductive Mutations (T : Value → Prop) : Machine → Machine → Prop
  | none (m : Machine) : Mutations T m m
  | call {s : Site} {f : NativeFunction} {v : Value} {args : List Value} {m m' : Machine}
    (hf : f.operation.mutates = true) (hv : T v) (hargs : Harmless T s v args m)
    (hrest : Mutations T (callNative s f (v :: args) m).2 m') : Mutations T m m'

/-- **Calls of mutating natives change what they are made at.** -/
theorem Mutations.changesOnly {T : Value → Prop} {m m' : Machine} (h : Mutations T m m') :
    m.heap.ChangesOnly T m'.heap := by
  induction h with
  | none m => exact .refl m.heap
  | call hf hv hargs _ ih => exact (callNative_changesOnly hf hv hargs).trans ih

end RuleScript
