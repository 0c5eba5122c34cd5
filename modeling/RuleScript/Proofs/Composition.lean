/-
# Properties that pass from steps to what is put together from them

To copy a value, to hand back a product, to look into an array: such
computations are put together from few steps. They return, they exhaust the
engine or stop with an internal error, they look at the heap, they add an
array or a dict to it, and they go on with the next step. A property of
computations that holds of these steps, and of two computations one after the
other, holds of what is put together from them (`Eval.Inspects`,
`Eval.Builds`).

The recursion of a definition is followed once, for every such property. Which
faults may be raised on the way is a hypothesis of its own: a property may
hold of the faults of one place of call and not of those of another.

Key definitions: `Eval.Inspects`, `Eval.Builds`, `Site.Receives`.
Key theorems: `Eval.Inspects.mapM`, `flatten_of_inspects`, `Site.copyValue_of_builds`,
`Datum.build_of_builds`, `Site.receive_of_receives`.
-/
import RuleScript.Library.Dispatch
import RuleScript.Proofs.Computation

namespace RuleScript

namespace Eval

/-- A property of computations that holds of the steps that change nothing,
and of two computations one after the other. -/
structure Inspects (Q : {α : Type} → Eval α → Prop) : Prop where
  pure : ∀ {α : Type} (a : α), Q (Pure.pure a : Eval α)
  exhausted : ∀ {α : Type}, Q (throw (.exhausted none) : Eval α)
  onHeap : ∀ {α : Type} (f : Heap → α), Q (onHeap f)
  bind : ∀ {α β : Type} {x : Eval α} {f : α → Eval β}, Q x → (∀ a, Q (f a)) → Q (x >>= f)

/-- A property that holds, besides, of the steps that add an array or a dict,
and of the stop at an integer that no number is near. -/
structure Builds (Q : {α : Type} → Eval α → Prop) : Prop extends Inspects Q where
  newArray : ∀ xs : List Value, Q (newArray xs)
  newDict : ∀ t : Table Value, Q (newDict t)
  tooLarge : ∀ {α : Type}, Q (throw (.internal .tooLarge none) : Eval α)

variable {Q : {α : Type} → Eval α → Prop} {α β : Type}

theorem Inspects.mapM (hQ : Inspects Q) {f : α → Eval β} (hf : ∀ a, Q (f a)) :
    ∀ xs : List α, Q (xs.mapM f)
  | [] => by
    rw [List.mapM_nil]
    exact hQ.pure []
  | x :: xs => by
    rw [List.mapM_cons]
    exact hQ.bind (hf x) fun b => hQ.bind (hQ.mapM hf xs) fun bs => hQ.pure (b :: bs)

end Eval

open Eval (Inspects Builds)

variable {Q : {α : Type} → Eval α → Prop}

/-! ### What only looks -/

section

variable (hQ : Inspects Q)

include hQ

theorem Site.toView_of_inspects : ∀ (frames : Nat) (v : Value), Q (Site.toView frames v)
  | 0, _ => hQ.exhausted
  | frames + 1, v => by
    unfold Site.toView
    split
    case h_1 => split <;> exact hQ.pure _
    case h_2 =>
      match frames with
      | 0 => exact hQ.exhausted
      | frames + 1 =>
        have hinside := toView_of_inspects frames
        exact hQ.bind (hQ.onHeap _) fun xs => hQ.bind (hQ.mapM hinside xs) fun _ => hQ.pure _
    case h_3 =>
      match frames with
      | 0 => exact hQ.exhausted
      | frames + 1 =>
        have hinside := toView_of_inspects frames
        have hentry (p : String × Value) := hQ.bind (hinside p.2) fun view => hQ.pure (p.1, view)
        exact hQ.bind (hQ.onHeap _) fun t => hQ.bind (hQ.mapM hentry t) fun _ => hQ.pure _
    case h_4 => exact hQ.pure _

theorem flatten_of_inspects : ∀ (frames : Nat) (level : Float) (xs : List Value),
    Q (flatten frames level xs)
  | 0, _, _ => hQ.exhausted
  | frames + 1, level, xs => by
    unfold flatten
    refine hQ.bind (hQ.mapM (fun x => ?_) xs) fun parts => hQ.pure _
    split
    · split
      · exact hQ.bind (hQ.onHeap _) (flatten_of_inspects frames _)
      · exact hQ.pure _
    · exact hQ.pure _

variable (s : Site)

theorem elementIndex_of_inspects (hfail : ∀ c, Q (s.fail c : Eval Nat)) (index : Float) (size : Nat)
    (allowEnd : Bool) : Q (elementIndex s index size allowEnd) := by
  unfold elementIndex
  split
  · exact hfail _
  · exact iteInduction (fun _ => hQ.pure _) fun _ => hfail _

theorem loopLimit_of_inspects (hfail : ∀ c, Q (s.fail c : Eval (Option Int))) : Q (loopLimit s) := by
  unfold loopLimit
  dsimp only
  split
  · exact hQ.pure _
  · split
    · exact hQ.pure _
    · exact hfail _

theorem indentArgument_of_inspects (hfail : ∀ {α : Type} (c : Cause), Q (s.fail c : Eval α)) :
    ∀ v : Option Value, Q (indentArgument s v)
  | none => hQ.pure _
  | some v => by
    have hnumber : Q (s.number "a number as indent" v) := by
      unfold Site.number
      split
      · exact hQ.pure _
      · exact hfail _
    refine hQ.bind hnumber fun x => ?_
    split
    · exact hQ.pure _
    · exact hfail _
    · exact hfail _

end

/-! ### What makes values -/

section

variable (hQ : Builds Q)

include hQ

/-- A copy, by induction on the frames that are left. -/
theorem Site.copyValue_of_builds (s : Site)
    (hfail : ∀ kind, Q (s.fail (.unsupportedResult kind) : Eval Value)) :
    ∀ (frames : Nat) (v : Value), Q (s.copyValue frames v)
  | 0, _ => hQ.exhausted
  | frames + 1, v => by
    unfold Site.copyValue
    split
    case h_1 => exact hfail _
    case h_2 =>
      match frames with
      | 0 => exact hQ.exhausted
      | frames + 1 =>
        have hinside := copyValue_of_builds s hfail frames
        exact hQ.bind (hQ.onHeap _) fun xs => hQ.bind (hQ.mapM hinside xs) hQ.newArray
    case h_3 =>
      have hinside := copyValue_of_builds s hfail frames
      have hentry (p : String × Value) := hQ.bind (hinside p.2) fun w => hQ.pure (p.1, w)
      exact hQ.bind (hQ.onHeap _) fun t => hQ.bind (hQ.mapM hentry t) hQ.newDict
    case h_4 => exact hQ.pure _

namespace Datum

mutual

theorem build_of_builds : ∀ (frames : Nat) (d : Datum), Q (d.build frames)
  | 0, _ => by
    rw [build]
    exact hQ.exhausted
  | _ + 1, .null | _ + 1, .bool _ | _ + 1, .number _ | _ + 1, .text _ => hQ.pure _
  | _ + 1, .integer n => by
    unfold build
    split
    · exact hQ.pure _
    · exact hQ.tooLarge
  | 1, .list _ | 1, .table _ => hQ.exhausted
  | frames + 2, .list ds => hQ.bind (buildAll_of_builds frames ds) hQ.newArray
  | frames + 2, .table es => hQ.bind (buildEntries_of_builds frames es) hQ.newDict

theorem buildAll_of_builds (frames : Nat) : ∀ ds : List Datum, Q (buildAll frames ds)
  | [] => hQ.pure []
  | d :: ds => hQ.bind (build_of_builds frames d) fun v =>
      hQ.bind (buildAll_of_builds frames ds) fun vs => hQ.pure (v :: vs)

theorem buildEntries_of_builds (frames : Nat) :
    ∀ es : List (String × Datum), Q (buildEntries frames es)
  | [] => hQ.pure []
  | (k, d) :: es => hQ.bind (build_of_builds frames d) fun v =>
      hQ.bind (buildEntries_of_builds frames es) fun t => hQ.pure ((k, v) :: t)

end

end Datum

end

/-- A property that holds, besides, of the faults of a place of call and of the
making of functions. -/
structure Site.Receives (s : Site) (Q : {α : Type} → Eval α → Prop) : Prop extends Builds Q where
  fail : ∀ {α : Type} (c : Cause), Q (s.fail c : Eval α)
  newFunction : ∀ f : Function, Q (Eval.newFunction f)

namespace Site

variable {s : Site} (hQ : s.Receives Q) (host : Option (Nat × Host))

include hQ

mutual

theorem receiveInside_of_receives :
    ∀ (frames : Nat) (p : Product), Q (s.receiveInside host frames p)
  | frames, .value v => by
    rw [receiveInside]
    exact s.copyValue_of_builds hQ.toBuilds (fun _ => hQ.fail _) frames v
  | 0, .integer _ | 0, .sequence _ | 0, .mapping _ | 0, .foreign _ | 0, .method _ => hQ.exhausted
  | 1, .sequence _ => hQ.exhausted
  | _ + 1, .integer n => by
    unfold receiveInside
    split
    · exact hQ.pure _
    · exact hQ.tooLarge
  | frames + 2, .sequence ps => hQ.bind (receiveAll_of_receives frames ps) hQ.newArray
  | frames + 1, .mapping es => hQ.bind (receiveEntries_of_receives frames es) hQ.newDict
  | _ + 1, .foreign c => hQ.fail _
  | _ + 1, .method k => by
    unfold receiveInside
    split
    · exact hQ.newFunction _
    · exact hQ.pure _

theorem receiveAll_of_receives (frames : Nat) :
    ∀ ps : List Product, Q (s.receiveAll host frames ps)
  | [] => hQ.pure []
  | p :: ps => hQ.bind (receiveInside_of_receives frames p) fun v =>
      hQ.bind (receiveAll_of_receives frames ps) fun vs => hQ.pure (v :: vs)

theorem receiveEntries_of_receives (frames : Nat) :
    ∀ es : List (ProductKey × Product), Q (s.receiveEntries host frames es)
  | [] => hQ.pure []
  | (.other, _) :: _ => hQ.fail _
  | (.text k, p) :: es => hQ.bind (receiveInside_of_receives frames p) fun v =>
      hQ.bind (receiveEntries_of_receives frames es) fun t => hQ.pure ((k, v) :: t)

end

/-- Handing back a product. -/
theorem receive_of_receives (p : Product) : Q (s.receive host p) := by
  unfold receive
  split
  · exact hQ.pure _
  · exact receiveInside_of_receives hQ host s.frames _

end Site

end RuleScript
