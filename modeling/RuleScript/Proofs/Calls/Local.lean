/-
# Computations that call nothing

Most of what a native operation does calls no function: it takes its arguments
apart, works on the heap and may fault. Such a computation leaves the active
calls as they are, and when it stops, no call has been noted in the stop yet.
`Eval.Local` says so. It is a class, so that the locality of a computation is
found from its text: instances for the operations of the machine and for
sequencing do all but the case distinctions.

Key definitions: `Stop.trace?`, `Eval.Local`.
Key theorems: `Eval.Local.bind`, `Site.receive_local`, `StringOp.run_local`,
`ArrayOp.run_local`, `CoreOp.run_local`.
-/
import RuleScript.Library.Dispatch
import RuleScript.Proofs.Rendering

namespace RuleScript

/-- The calls that are noted in a stop. -/
def Stop.trace? : Stop → Option (List Frame)
  | .fault f => f.trace
  | .internal _ trace => trace
  | .exhausted trace => trace

/-- A computation that calls nothing: the active calls stay, and a stop has
left no call. -/
class Eval.Local {α : Type} (x : Eval α) : Prop where
  run : ∀ m, (x m).2.calls = m.calls ∧ ∀ s, (x m).1 = .error s → s.trace? = none

namespace Eval

variable {α β : Type}

/-! ### The operations of the machine -/

theorem Local.throw {s : Stop} (h : s.trace? = none) : Local (throw s : Eval α) :=
  ⟨fun _ => ⟨rfl, by rintro _ ⟨⟩; exact h⟩⟩

theorem Local.modify {f : Machine → Machine} (h : ∀ m, (f m).calls = m.calls) :
    Local (modify f : Eval Unit) := ⟨fun m => ⟨h m, by rintro _ ⟨⟩⟩⟩

/-- A local computation may be followed by local ones. -/
instance Local.bind {x : Eval α} {f : α → Eval β} [hx : Local x] [hf : ∀ a, Local (f a)] :
    Local (x >>= f) := by
  refine ⟨fun m => ?_⟩
  obtain ⟨hcalls, hstop⟩ := hx.run m
  rw [bind_run]
  split
  · rename_i a m' hr
    obtain ⟨hcalls', hstop'⟩ := (hf a).run m'
    exact ⟨hcalls'.trans (by simpa [hr] using hcalls), hstop'⟩
  · rename_i s m' hr
    rw [hr] at hcalls hstop
    exact ⟨hcalls, by rintro _ ⟨⟩; exact hstop s rfl⟩

theorem Local.seq {x : Eval α} {f : α → Eval β} (hx : Local x) (hf : ∀ a, Local (f a)) :
    Local (x >>= f) := Local.bind

theorem Local.andThen {x : Eval α} {f : α → Eval β} [Local x] (hf : ∀ a, Local (f a)) :
    Local (x >>= f) := Local.bind

instance (a : α) : Local (pure a : Eval α) := ⟨fun _ => ⟨rfl, by rintro _ ⟨⟩⟩⟩

instance {x : Eval α} {f : α → β} [Local x] : Local (f <$> x) := by
  rw [map_eq_pure_bind]
  infer_instance

instance : Local (throw (Stop.exhausted none) : Eval α) := .throw rfl

instance (e : InternalError) : Local (throw (Stop.internal e none) : Eval α) := .throw rfl

instance (ctx : Context) (pos : Position) (c : Cause) : Local (fail ctx pos c : Eval α) :=
  .throw rfl

instance : Local (get : Eval Machine) := ⟨fun _ => ⟨rfl, by rintro _ ⟨⟩⟩⟩

instance (f : Heap → α) : Local (onHeap f) := ⟨fun _ => ⟨rfl, by rintro _ ⟨⟩⟩⟩

instance (f : Heap → Heap) : Local (modifyHeap f) := .modify fun _ => rfl

instance (f : Heap → α × Heap) : Local (allocate f) := ⟨fun _ => ⟨rfl, by rintro _ ⟨⟩⟩⟩

instance (ctx : Context) (line : Unit → String) : Local (note ctx line) := by
  unfold note
  split
  · exact .modify fun _ => rfl
  · infer_instance

instance (ctx : Context) (what name : String) (pos : Position) : Local (fire ctx what name pos) := by
  have : Local (modify fun m : Machine => { m with focus := some pos }) := .modify fun _ => rfl
  exact Local.bind

instance (items : List Value) : Local (newArray items) := Local.bind

instance (table : Table Value) : Local (newDict table) := Local.bind

instance (f : Function) : Local (newFunction f) := Local.bind

/-! ### Case distinctions and lists -/

instance {c : Prop} [Decidable c] {x y : Eval α} [Local x] [Local y] :
    Local (if c then x else y) := by
  split <;> infer_instance

/-- To be local passes from the steps to what is put together from them. -/
theorem local_builds : Builds Local where
  pure _ := inferInstance
  exhausted := inferInstance
  onHeap _ := inferInstance
  bind := Local.seq
  newArray _ := inferInstance
  newDict _ := inferInstance
  tooLarge := inferInstance

instance {f : α → Eval β} [h : ∀ a, Local (f a)] (xs : List α) : Local (xs.mapM f) :=
  local_builds.mapM h xs

instance Local.forM {f : α → Eval PUnit} [∀ a, Local (f a)] : ∀ xs : List α, Local (xs.forM f)
  | [] => inferInstanceAs (Local (pure _))
  | x :: xs => by
    have := Local.forM (f := f) xs
    exact inferInstanceAs (Local (f x >>= fun _ => xs.forM f))

end Eval

open Eval (Local)

/-! ### Arguments and results -/

namespace Site

variable (s : Site)

instance {α : Type} (c : Cause) : Local (s.fail c : Eval α) :=
  inferInstanceAs (Local (Eval.fail s.ctx s.pos c))

instance (what : String) (v : Value) : Local (s.number what v) := by
  unfold number; split <;> infer_instance

instance (what : String) (v : Value) : Local (s.string what v) := by
  unfold string; split <;> infer_instance

instance (what : String) (v : Value) : Local (s.bool what v) := by
  unfold bool; split <;> infer_instance

instance (what : String) (v : Value) : Local (s.array what v) := by
  unfold array; split <;> infer_instance

instance (what : String) (v : Value) : Local (s.dict what v) := by
  unfold dict; split <;> infer_instance

instance (what : String) (v : Value) : Local (s.function what v) := by
  unfold function; split <;> infer_instance

instance (what : String) (v : Option Value) : Local (s.number? what v) := by
  unfold number?; split <;> infer_instance

instance (r : ArrayRef) : Local (items r) := inferInstanceAs (Local (Eval.onHeap _))

theorem local_receives : s.Receives Local where
  toBuilds := Eval.local_builds
  fail _ := inferInstance
  newFunction _ := inferInstance

/-- Making a product a value is local. -/
instance receive_local (host : Option (Nat × Host)) (p : Product) : Local (s.receive host p) :=
  receive_of_receives s.local_receives host p

end Site

/-! ### Operations -/

open Site (items)

instance (s : Site) (index : Float) (size : Nat) (allowEnd : Bool) :
    Local (elementIndex s index size allowEnd) :=
  elementIndex_of_inspects Eval.local_builds.toInspects s (fun _ => inferInstance) index size allowEnd

instance (s : Site) (args : List Value) : Local (createArray s args) := by
  unfold createArray
  split
  · infer_instance
  · refine .andThen fun size => ?_
    split <;> infer_instance

instance (s : Site) (args : List Value) : Local (unpackArray s args) := by
  refine .andThen fun r => .andThen fun names => .andThen fun refs => .andThen fun names => ?_
  split
  · exact .andThen fun loose => .andThen fun xs => inferInstance
  · exact .andThen fun loose => .andThen fun xs => inferInstance

instance (s : Site) (args : List Value) : Local (removeItems s args) := by
  refine .andThen fun r => .andThen fun index => .andThen fun xs => .andThen fun start => ?_
  split <;> infer_instance

theorem Site.local_fills (D : Disguise) (s : Site) : s.Fills D Local where
  toInspects := Eval.local_builds.toInspects
  fail _ := inferInstance
  clearScope _ _ := inferInstance

instance (D : Disguise) (s : Site) (args : List Value) : Local (s.renderTemplate D args) :=
  Site.renderTemplate_of_fills (s.local_fills D) args

instance (s : Site) (args : List Value) : Local (printValues s args) := by
  refine .andThen fun h => .andThen fun _ => ?_
  have (message : String) :
      Local (modify fun m : Machine => { m with effects := m.effects.push (.printed message) }) :=
    .modify fun _ => rfl
  exact Local.bind

instance (s : Site) : Local (loopLimit s) :=
  loopLimit_of_inspects Eval.local_builds.toInspects s fun _ => inferInstance

instance (s : Site) (v : Option Value) : Local (indentArgument s v) :=
  indentArgument_of_inspects Eval.local_builds.toInspects s (fun _ => inferInstance) v

instance (s : Site) (host index : Nat) (args : List Value) : Local (runMethod s host index args) := by
  refine .andThen fun m => ?_
  split
  · infer_instance
  · split
    · infer_instance
    · have (o : Host) (counters : Counters) : Local (modify fun st : Machine =>
          { st with hosts := st.hosts.setIfInBounds host { o with counters } }) :=
        .modify fun _ => rfl
      refine .andThen fun _ => ?_
      split <;> infer_instance

section Operations

variable (s : Site) (args : List Value)

instance StringOp.run_local (op : StringOp) : Local (op.run s args) := by
  cases op
  case join =>
    refine .andThen fun r => .andThen fun xs => .andThen fun parts => ?_
    dsimp only
    split <;> infer_instance
  case split =>
    refine .andThen fun text => ?_
    split <;> infer_instance
  case render => exact inferInstanceAs (Local (s.renderTemplate .plain args))
  all_goals exact Local.bind

instance DictOp.run_local (op : DictOp) : Local (op.run s args) := by
  cases op <;> exact Local.bind

instance MathOp.run_local (op : MathOp) : Local (op.run s args) := by
  cases op
  case random =>
    have : Local (modify fun m : Machine => { m with seed := nextSeed m.seed }) :=
      .modify fun _ => rfl
    exact Local.bind
  all_goals exact Local.bind

instance DataOp.run_local (format : DataFormat) (op : DataOp) : Local (op.run s format args) := by
  have := Datum.build_of_builds Eval.local_builds
  cases op
  case parse =>
    refine .andThen fun text => ?_
    split <;> infer_instance
  case stringify =>
    refine .andThen fun indent => .andThen fun h => ?_
    split <;> infer_instance

/-- The array operations that call a function. -/
def ArrayOp.callsBack : ArrayOp → Bool
  | .sort | .forEach | .map | .filter => true
  | _ => false

theorem ArrayOp.run_local {op : ArrayOp} (h : op.callsBack = false) : Local (op.run s args) := by
  have := flatten_of_inspects Eval.local_builds.toInspects
  cases op
  case flat =>
    refine .andThen fun r => ?_
    dsimp only
    split <;> infer_instance
  case sort | forEach | map | filter => cases h
  all_goals
    simp only [ArrayOp.run]
    infer_instance

/-- The core operations that call a function. -/
def CoreOp.callsBack : CoreOp → Bool
  | .choose => true
  | _ => false

theorem CoreOp.run_local {op : CoreOp} (h : op.callsBack = false) : Local (op.run s args) := by
  cases op
  case help =>
    refine .andThen fun f => .andThen fun g => ?_
    split <;> infer_instance
  case dir | number =>
    simp only [CoreOp.run]
    split <;> infer_instance
  case get =>
    refine .andThen fun name => .andThen fun v => ?_
    split <;> infer_instance
  case choose => cases h
  all_goals
    simp only [CoreOp.run]
    infer_instance

/-- The probes that call a function. -/
def ProbeOp.callsBack : ProbeOp → Bool
  | .apply => true
  | _ => false

theorem ProbeOp.run_local {op : ProbeOp} (h : op.callsBack = false) : Local (op.run s args) := by
  cases op
  case apply => cases h
  all_goals
    simp only [ProbeOp.run]
    infer_instance

end Operations

end RuleScript
